import IrohShare.Consent

/-!
# The waits of the forwarder

Nothing ties a notification to the offer it answers.  As long as no response straddles
the expiry of a wait, each iteration of `forward_offers` leaves the slot and the
notification as it found them, empty; a response that does leaves a permit behind, which
ends the next wait, and the offer of that wait is displaced undecided.
-/
namespace IrohShare
open Notification

/-- The offer a call has removed and not yet raised its notification for. -/
def Call.answering : Call → Option Nat
  | taken pending _ => some pending.view.id
  | sent id _ => some id
  | _ => Option.none

namespace Desk
open Transition

/-- The step makes a response straddle the expiry of a wait: it takes the offer of an
expired wait before the forwarder does, or it expires the wait of an offer that was taken
and whose notification is not yet raised. -/
def straddles (s : Desk) : Action → Bool
  | .take c =>
    match s.forwarder, s.calls c, s.pending with
    | .expired _, .resolved id _, some pending => pending.view.id = id
    | _, _, _ => false
  | .expire => s.pending.isNone
  | _ => false

/-- How far the answer to the offer `id` has come while its iteration lasts: undecided,
in the hands of one call, or notified.  `quiet` and `rung` are the notification before and
after it is raised. -/
inductive Round (s : Desk) (id : Nat) (quiet rung : Notify Nat) : Prop
  | undecided : s.pending ≠ none → s.answered = quiet →
      (∀ c, (s.calls c).answering = none) → Round s id quiet rung
  | answering (c : CallId) : s.pending = none → s.answered = quiet →
      (s.calls c).answering = some id → (∀ c', c' ≠ c → (s.calls c').answering = none) →
      Round s id quiet rung
  | notified : s.pending = none → s.answered = rung →
      (∀ c, (s.calls c).answering = none) → Round s id quiet rung

/-- Slot, notification and calls are as before the first offer. -/
structure Idle (s : Desk) : Prop where
  pending : s.pending = none
  answered : s.answered = {}
  answering : ∀ c, (s.calls c).answering = none

/-- The state of the round when the forwarder is at a place. -/
def RoundAt (s : Desk) : Forwarder → Prop
  | .receiving | .storing _ | .retiring _ | .panicked => s.Idle
  | .emitting view => s.Round view.id {} ⟨some view.id, .none⟩
  | .entering id => s.Round id {} ⟨some id, .none⟩
  | .waiting id => s.Round id ⟨none, .parked⟩ ⟨none, .woken id⟩
  | .expired _ => s.pending ≠ none ∧ s.answered = {} ∧ ∀ c, (s.calls c).answering = none

/-- The state of the current round. -/
def Rounds (s : Desk) : Prop := s.RoundAt s.forwarder

variable {s s' : Desk} {id : Nat} {quiet rung quiet' rung' : Notify Nat}

theorem Round.congr (h : s.Round id quiet rung) (hpending : s'.pending = s.pending)
    (hquiet : s.answered = quiet → s'.answered = quiet')
    (hrung : s.answered = rung → s'.answered = rung')
    (hanswering : ∀ c, (s'.calls c).answering = (s.calls c).answering) :
    s'.Round id quiet' rung' := by
  cases h with
  | undecided hp hn hc => exact .undecided (hpending ▸ hp) (hquiet hn) (by simpa [hanswering])
  | answering c hp hn hc hother =>
    exact .answering c (hpending ▸ hp) (hquiet hn) (by simpa [hanswering])
      (by simpa [hanswering])
  | notified hp hn hc => exact .notified (hpending ▸ hp) (hrung hn) (by simpa [hanswering])

/-- The rounds do not see handlers, queue and numbers, nor what a call does before it
takes an offer. -/
theorem Rounds.congr (h : s.Rounds) (hforwarder : s'.forwarder = s.forwarder)
    (hpending : s'.pending = s.pending) (hanswered : s'.answered = s.answered)
    (hanswering : ∀ c, (s'.calls c).answering = (s.calls c).answering) : s'.Rounds := by
  unfold Rounds at h ⊢
  rw [hforwarder]
  cases hf : s.forwarder with
  | receiving | storing pending | retiring id | panicked =>
    rw [hf] at h
    exact ⟨hpending ▸ h.pending, hanswered ▸ h.answered, fun c => hanswering c ▸ h.answering c⟩
  | emitting view | entering id | waiting id =>
    rw [hf] at h
    exact Round.congr h hpending (fun hq => hanswered ▸ hq) (fun hr => hanswered ▸ hr) hanswering
  | expired id =>
    rw [hf] at h
    exact ⟨hpending ▸ h.1, hanswered ▸ h.2.1, fun c => hanswering c ▸ h.2.2 c⟩

theorem answering_update {calls : CallId → Call} {c : CallId} {call : Call}
    (h : call.answering = (calls c).answering) (c' : CallId) :
    (Function.update calls c call c').answering = (calls c').answering := by
  by_cases heq : c' = c
  · subst heq
    rw [Function.update_self, h]
  · rw [Function.update_of_ne heq]

/-- While an offer is in the slot, the round is undecided. -/
theorem Round.of_pending (h : s.Round id quiet rung) (hpending : s.pending ≠ none) :
    s.answered = quiet ∧ ∀ c, (s.calls c).answering = none := by
  cases h with
  | undecided _ hn hc => exact ⟨hn, hc⟩
  | answering _ hp => exact absurd hp hpending
  | notified hp => exact absurd hp hpending

/-- While a call has an answer to notify, it is the answer of the round. -/
theorem Round.of_answering (h : s.Round id quiet rung) {c : CallId} {id' : Nat}
    (hc : (s.calls c).answering = some id') :
    s.pending = none ∧ s.answered = quiet ∧ id' = id ∧
      ∀ c', c' ≠ c → (s.calls c').answering = none := by
  cases h with
  | undecided _ _ hnone | notified _ _ hnone => simp [hnone] at hc
  | answering c₀ hp hn hc₀ hother =>
    by_cases heq : c = c₀
    · subst heq
      exact ⟨hp, hn, Option.some.inj (hc.symm.trans hc₀), hother⟩
    · simp [hother c heq] at hc

/-- A call takes the offer of the round. -/
theorem Round.take (h : s.Round id quiet rung) {c : CallId} {pending : PendingOffer}
    {decision : OfferDecision} (hpending : s.pending = some pending) (hid : pending.view.id = id) :
    Round { s.setCall c (.taken pending decision) with pending := none } id quiet rung := by
  obtain ⟨hn, hc⟩ := h.of_pending (by simp [hpending])
  refine .answering c rfl hn ?_ (fun c' hne => ?_)
  · simp [setCall, Call.answering, hid]
  · simpa [setCall, hne] using hc c'

/-- A call raises the notification of the round. -/
theorem Round.notify (h : s.Round id quiet rung) {c : CallId} {call : Call} {id' : Nat}
    (hc : (s.calls c).answering = some id') (hcalls : s'.calls = Function.update s.calls c call)
    (hcall : call.answering = none) (hpending : s'.pending = s.pending)
    (hanswered : s'.answered = s.answered.notifyOne id') (hrung : quiet.notifyOne id = rung) :
    s'.Round id quiet rung := by
  obtain ⟨hp, hn, rfl, hother⟩ := h.of_answering hc
  refine .notified (hpending ▸ hp) (by rw [hanswered, hn, hrung]) (fun c' => ?_)
  rw [hcalls]
  by_cases heq : c' = c
  · subst heq
    rwa [Function.update_self]
  · rw [Function.update_of_ne heq]
    exact hother c' heq

theorem Rounds.start : Desk.start.Rounds := ⟨rfl, rfl, fun _ => rfl⟩

theorem Rounds.step (h : s.Rounds) (hnumbered : s.Numbered) {a : Action} {event : Option Event}
    (hapart : s.straddles a = false) (hst : Step s a event s') : s'.Rounds := by
  cases hst with
  | recv hforwarder | overflow hforwarder | emitExpired hforwarder =>
    simp only [Rounds, RoundAt, hforwarder] at h ⊢
    exact ⟨h.pending, h.answered, h.answering⟩
  | store hforwarder =>
    simp only [Rounds, RoundAt, hforwarder] at h ⊢
    exact .undecided nofun h.answered h.answering
  | displace hforwarder hold =>
    -- between two rounds the slot is empty
    simp only [Rounds, RoundAt, hforwarder] at h
    simp [h.pending] at hold
  | emitIncoming hforwarder =>
    simp only [Rounds, RoundAt, hforwarder] at h ⊢
    exact h.congr rfl id id (fun _ => rfl)
  | enterWait hforwarder =>
    simp only [Rounds, RoundAt, hforwarder] at h ⊢
    exact h.congr rfl (fun hn => by rw [hn]; rfl) (fun hn => by rw [hn]; rfl) (fun _ => rfl)
  | wake hforwarder hwaiter =>
    simp only [Rounds, RoundAt, hforwarder] at h ⊢
    cases h with
    | undecided _ hn | answering _ _ hn => simp [hn] at hwaiter
    | notified hp hn hc => exact ⟨hp, by rw [hn]; rfl, hc⟩
  | expire hforwarder hwaiter =>
    simp only [Rounds, RoundAt, hforwarder] at h ⊢
    -- no response straddles the expiry, so the offer is still in the slot
    have hpending : s.pending ≠ none := by
      intro hnone
      simp [straddles, hnone] at hapart
    obtain ⟨hn, hc⟩ := h.of_pending hpending
    exact ⟨hpending, by rw [hn]; rfl, hc⟩
  | takeExpired hforwarder hpending =>
    simp only [Rounds, RoundAt, hforwarder] at h ⊢
    exact ⟨rfl, h.2.1, h.2.2⟩
  | skipExpired hforwarder hpending =>
    simp only [Rounds, RoundAt, hforwarder] at h
    exact absurd hpending h.1
  | @take c decision pending hc hpending =>
    have hid := hnumbered.pending hpending
    unfold Rounds at h
    change RoundAt _ s.forwarder
    cases hf : s.forwarder with
    | receiving | storing _ | retiring _ | panicked =>
      rw [hf] at h
      -- an offer in the slot belongs to the round it was stored in
      exact absurd (h.pending.symm.trans hpending) nofun
    | emitting view | entering id | waiting id =>
      rw [hf] at h
      exact Round.take h hpending (hid.trans (hnumbered.current (by rw [hf]; rfl)).symm)
    | expired id => simp [straddles, hf, hc, hpending] at hapart
  | respond hc | respondFails hc | takeFails hc | send hc =>
    exact h.congr rfl rfl rfl (answering_update (by rw [hc]; rfl))
  | @notify c id delivered hc =>
    have hanswering : (s.calls c).answering = some id := by rw [hc]; rfl
    unfold Rounds at h
    change RoundAt _ s.forwarder
    cases hf : s.forwarder with
    | receiving | storing _ | retiring _ | panicked =>
      rw [hf] at h
      exact absurd ((h.answering c).symm.trans hanswering) nofun
    | emitting view | entering id | waiting id =>
      rw [hf] at h
      exact Round.notify h hanswering rfl rfl rfl rfl rfl
    | expired id =>
      rw [hf] at h
      exact absurd ((h.2.2 c).symm.trans hanswering) nofun
  | _ => exact h.congr rfl rfl rfl (fun _ => rfl)

/-! ## What the log says of the waits -/

/-- Every numbered offer is on its way into the slot, in it, or retired, and what ended a
wait was meant for it: its own expiry, its own notification. -/
structure Settled (s : Desk) (log : List Event) : Prop where
  assigned : ∀ {id h}, .assigned id h ∈ log →
    (∃ p, s.forwarder = .storing p ∧ p.view.id = id) ∨ (∃ p, s.pending = some p ∧ p.view.id = id) ∨
      ∃ cause, .retired id h cause ∈ log
  expiry : ∀ {id h iteration}, .retired id h (.expiry iteration) ∈ log → iteration = id
  displaced : ∀ {id h}, .retired id h .displaced ∉ log
  answered : ∀ {id tag}, .answered id tag ∈ log → tag = id

variable {log : List Event}

/-- Steps that neither fill the slot nor empty it nor end a wait. -/
theorem Settled.frame (h : Settled s log) {event : Option Event}
    (hforwarder : ∀ {p}, s.forwarder = .storing p → s'.forwarder = .storing p)
    (hpending : s'.pending = s.pending)
    (hassigned : ∀ {id x}, .assigned id x ∉ event.toList)
    (hretired : ∀ {id x cause}, .retired id x cause ∉ event.toList)
    (hanswered : ∀ {id tag}, .answered id tag ∉ event.toList) :
    Settled s' (event.toList ++ log) := by
  have hold : ∀ {e}, e ∈ event.toList ++ log → e ∉ event.toList → e ∈ log :=
    fun hmem hnot => (List.mem_append.mp hmem).resolve_left hnot
  refine ⟨fun hmem => ?_, fun hmem => h.expiry (hold hmem hretired),
    fun hmem => h.displaced (hold hmem hretired), fun hmem => h.answered (hold hmem hanswered)⟩
  rcases h.assigned (hold hmem hassigned) with ⟨p, hf, hid⟩ | ⟨p, hp, hid⟩ | ⟨cause, hr⟩
  · exact .inl ⟨p, hforwarder hf, hid⟩
  · exact .inr (.inl ⟨p, hpending ▸ hp, hid⟩)
  · exact .inr (.inr ⟨cause, List.mem_append_right _ hr⟩)

/-- The offer in the slot is retired, not displaced, and if by expiry by its own. -/
theorem Settled.retire (h : Settled s log) (hsenders : SendersTracked s log)
    {old : PendingOffer} {cause : Retirement} (hold : s.pending = some old)
    (hcause : cause ≠ .displaced) (hexpiry : ∀ i, cause = .expiry i → i = old.view.id)
    (hforwarder : ∀ {p}, s.forwarder = .storing p → s'.forwarder = .storing p) :
    Settled s' (.retired old.view.id old.decision cause :: log) := by
  have hnumber : .assigned old.view.id old.decision ∈ log := by
    have hmem : .assigned old.view.id old.decision ∈ senderTrail log old.decision := by
      simp [hsenders.pending hold]
    exact (List.mem_filter.mp hmem).1
  refine ⟨fun {id x} hmem => ?_, fun hmem => ?_, fun hmem => ?_, fun hmem => ?_⟩
  · have hmem : .assigned id x ∈ log := by simpa using hmem
    rcases h.assigned hmem with ⟨p, hf, hid⟩ | ⟨p, hp, rfl⟩ | ⟨cause', hr⟩
    · exact .inl ⟨p, hforwarder hf, hid⟩
    · cases hold.symm.trans hp
      cases hsenders.unique hmem hnumber
      exact .inr (.inr ⟨cause, List.mem_cons_self⟩)
    · exact .inr (.inr ⟨cause', List.mem_cons_of_mem _ hr⟩)
  · rcases List.mem_cons.mp hmem with heq | hmem
    · cases heq
      exact hexpiry _ rfl
    · exact h.expiry hmem
  · rcases List.mem_cons.mp hmem with heq | hmem
    · cases heq
      exact hcause rfl
    · exact h.displaced hmem
  · exact h.answered (by simpa using hmem)

theorem Settled.step (h : Settled s log) (hrounds : s.Rounds) (hnumbered : s.Numbered)
    (hsenders : SendersTracked s log) {a : Action} {event : Option Event}
    (hst : Step s a event s') : Settled s' (event.toList ++ log) := by
  cases hst with
  | @recv peers request queue hforwarder hqueue hbound =>
    refine ⟨fun hmem => ?_, fun hmem => h.expiry (by simpa using hmem),
      fun hmem => h.displaced (by simpa using hmem), fun hmem => h.answered (by simpa using hmem)⟩
    rcases List.mem_cons.mp hmem with heq | hmem
    · cases heq
      exact .inl ⟨_, rfl, rfl⟩
    · rcases h.assigned hmem with ⟨p, hf, -⟩ | hp | ⟨cause, hr⟩
      · simp [hforwarder] at hf
      · exact .inr (.inl hp)
      · exact .inr (.inr ⟨cause, List.mem_cons_of_mem _ hr⟩)
  | store hforwarder hnone =>
    refine ⟨fun hmem => ?_, h.expiry, h.displaced, h.answered⟩
    rcases h.assigned hmem with ⟨p, hf, hid⟩ | ⟨p, hp, -⟩ | hr
    · cases hforwarder.symm.trans hf
      exact .inr (.inl ⟨_, rfl, hid⟩)
    · simp [hnone] at hp
    · exact .inr (.inr hr)
  | displace hforwarder hold =>
    simp only [Rounds, RoundAt, hforwarder] at hrounds
    simp [hrounds.pending] at hold
  | @wake id tag hforwarder hwaiter =>
    simp only [Rounds, RoundAt, hforwarder] at hrounds
    refine ⟨fun hmem => ?_, fun hmem => h.expiry (by simpa using hmem),
      fun hmem => h.displaced (by simpa using hmem), fun hmem => ?_⟩
    · rcases h.assigned (by simpa using hmem) with ⟨p, hf, -⟩ | hp | ⟨cause, hr⟩
      · simp [hforwarder] at hf
      · exact .inr (.inl hp)
      · exact .inr (.inr ⟨cause, List.mem_cons_of_mem _ hr⟩)
    · rcases List.mem_cons.mp hmem with heq | hmem
      · cases heq
        cases hrounds with
        | undecided _ hn | answering _ _ hn => simp [hn] at hwaiter
        | notified _ hn => simpa [hn, eq_comm] using hwaiter
      · exact h.answered hmem
  | takeExpired hforwarder hold =>
    refine h.retire hsenders hold nofun ?_ (fun hf => by simp [hforwarder] at hf)
    rintro _ ⟨⟩
    rw [hnumbered.pending hold]
    exact hnumbered.current (by rw [hforwarder]; rfl)
  | take hc hold => exact h.retire hsenders hold nofun nofun id
  | overflow hforwarder | emitIncoming hforwarder | enterWait hforwarder | expire hforwarder
  | skipExpired hforwarder | emitExpired hforwarder =>
    exact h.frame (fun hf => by simp [hforwarder] at hf) rfl nofun nofun nofun
  | _ => exact h.frame id rfl (by simp) (by simp) (by simp)

/-- The runs in which no response straddles the expiry of a wait. -/
abbrev Apart (l : Logged Desk Event) (a : Action) : Prop := l.state.straddles a = false

theorem rounds_settled {l : Logged Desk Event} (hl : logged.ReachableBy Apart l) :
    l.state.Rounds ∧ Settled l.state l.log := by
  refine hl.invariant (I := fun l => l.state.Rounds ∧ Settled l.state l.log) ?_ ?_
  · rintro ⟨s, log⟩ ⟨hs, hlog⟩
    cases hs
    cases hlog
    exact ⟨.start, nofun, nofun, nofun, nofun⟩
  · rintro l a ⟨s', log'⟩ hl ⟨hrounds, hsettled⟩ hapart hst
    obtain ⟨hst, hlog⟩ := logged_step_spec hst
    cases hlog
    have ht := tracked hl.reachable
    exact ⟨hrounds.step ht.numbered hapart hst, hsettled.step hrounds ht.numbered ht.senders hst⟩

/-- **No undecided offer is displaced while responses and expiries stay apart.**  In every
run in which no response straddles the expiry of a wait: when the forwarder is about to
store an offer the slot is empty, and every earlier offer was taken by a call naming its
number or declined by the expiry of its own wait; no sender is dropped by overwriting; and
the notification that ends a wait is the one raised for its offer. -/
theorem displaced_never {l : Logged Desk Event} (hl : logged.ReachableBy Apart l) :
    (∀ p, l.state.forwarder = .storing p → l.state.pending = none ∧
      ∀ id h, .assigned id h ∈ l.log → id ≠ p.view.id →
        (∃ c d, .resolved c id d ∈ l.log ∧ .retired id h (.call c) ∈ l.log) ∨
          .retired id h (.expiry id) ∈ l.log) ∧
    (∀ id h, .retired id h .displaced ∉ l.log) ∧
    ∀ id tag, .answered id tag ∈ l.log → tag = id := by
  obtain ⟨hrounds, hsettled⟩ := rounds_settled hl
  have ht := tracked hl.reachable
  refine ⟨fun p hforwarder => ?_, fun _ _ => hsettled.displaced, fun _ _ => hsettled.answered⟩
  simp only [Rounds, RoundAt, hforwarder] at hrounds
  refine ⟨hrounds.pending, fun id h hassigned hne => ?_⟩
  rcases hsettled.assigned hassigned with ⟨p', hf, hid⟩ | ⟨p', hp, -⟩ | ⟨cause, hr⟩
  · cases hforwarder.symm.trans hf
    exact absurd hid.symm hne
  · simp [hrounds.pending] at hp
  · cases cause with
    | call c =>
      obtain ⟨d, hresolved⟩ := (ht.calls c).resolved_of_retired hr
      exact .inl ⟨c, d, hresolved, hr⟩
    | expiry iteration =>
      cases hsettled.expiry hr
      exact .inr hr
    | displaced => exact absurd hr hsettled.displaced

/-- Three offers: the first accepted, the second left to expire, the third received. -/
def answeredThenExpiredRun : List Action :=
  [.connect 0 ⟨1⟩ Offer.sampleOffer, .enqueue 0, .connect 1 ⟨1⟩ Offer.sampleOffer, .enqueue 1,
    .connect 2 ⟨1⟩ Offer.sampleOffer, .enqueue 2, .recv [], .store, .emitIncoming, .enterWait,
    .respond 0 1 true none openDirectories, .take 0, .send 0, .notify 0, .wake, .recv [], .store,
    .emitIncoming, .enterWait, .expire, .takeExpired, .emitExpired, .recv []]

theorem displaced_never_answeredThenExpired : ∃ l p,
    logged.exec ⟨start, []⟩ answeredThenExpiredRun = some l ∧ l.state.forwarder = .storing p ∧
    l.state.pending = none ∧
    ((∃ c d, .resolved c 2 d ∈ l.log ∧ .retired 2 1 (.call c) ∈ l.log) ∨
      .retired 2 1 (.expiry 2) ∈ l.log) ∧
    .answered 1 1 ∈ l.log := by
  have hstart : logged.ReachableBy Apart ⟨start, []⟩ := .init ⟨rfl, rfl⟩
  have hl := displaced_never
    (hstart.exec (by decide : logged.Meets Apart ⟨start, []⟩ answeredThenExpiredRun) rfl)
  obtain ⟨hnone, hearlier⟩ := hl.1 _ rfl
  exact ⟨_, _, rfl, rfl, hnone, hearlier 2 1 (by decide) (by decide), by decide⟩

/-- The first offer's wait expires; its answer comes before the forwarder takes the offer
out, and leaves a permit behind.  It ends the wait of the second offer at once, and the
third is received while the second is undecided. -/
def straddlingRun : List Action :=
  [.connect 0 ⟨1⟩ Offer.sampleOffer, .enqueue 0, .recv [], .store, .emitIncoming, .enterWait,
    .connect 1 ⟨1⟩ Offer.sampleOffer, .enqueue 1, .connect 2 ⟨1⟩ Offer.sampleOffer, .enqueue 2,
    .elapse 0, .dropReceiver 0, .expire,
    .respond 0 1 true none openDirectories, .take 0, .send 0, .notify 0, .takeExpired, .emitExpired,
    .recv [], .store, .emitIncoming, .enterWait, .wake, .recv []]

/-- The forwarder stores the third offer over the undecided second one, whose sender is
dropped; the notification for the first offer had ended the wait of the second. -/
theorem straddlingRun_displaces : ∃ l l' : Logged Desk Event, logged.Reachable l ∧
    (∃ p, l.state.forwarder = .storing p) ∧ l.state.pending ≠ none ∧ .answered 2 1 ∈ l.log ∧
    logged.step l .store = some l' ∧ .retired 2 1 .displaced ∈ l'.log ∧
    (l'.state.handlers 1).map Handler.senderDropped = some true := by
  refine ⟨_, _, logged_reachable (rfl : logged.exec ⟨start, []⟩ straddlingRun = some _),
    ⟨_, rfl⟩, nofun, ?_, rfl, ?_, rfl⟩
  · decide
  · decide

end Desk
end IrohShare
