import IrohShare.OfferPage
import IrohShare.OfferNumbers

/-!
# The offer in the dialog and the offer in the slot

The page follows the slot through the events under way to it.  `eventual` is what the page
shows once every event is delivered, the one included that `forward_offers` owes for what it
has just done to the slot.  It agrees with the slot, except where a response breaks in: a
successful one empties the dialog whatever it shows by then, and one that says the sender
stopped waiting leaves it open.
-/
namespace IrohShare
open Transition

/-! ## Events on their way -/

/-- What the page shows after an event. -/
def PageEvent.shows (shown : Option IncomingOffer) : PageEvent → Option IncomingOffer
  | .incomingOffer view => some view
  | .offerExpired id => if shown.map IncomingOffer.id = some id then none else shown

/-- The event brings offer `id`. -/
def PageEvent.announces (id : Nat) : PageEvent → Bool
  | .incomingOffer view => view.id = id
  | .offerExpired _ => false

/-- What the page shows after the events. -/
def showAfter (events : List PageEvent) (shown : Option IncomingOffer) : Option IncomingOffer :=
  events.foldl PageEvent.shows shown

theorem showAfter_append (events events' : List PageEvent) (shown : Option IncomingOffer) :
    showAfter (events ++ events') shown = showAfter events' (showAfter events shown) :=
  List.foldl_append

/-- Events replace what is shown, or leave it. -/
theorem showAfter_eq_or (events : List PageEvent) (shown : Option IncomingOffer) :
    showAfter events shown = showAfter events none ∨ showAfter events shown = shown := by
  induction events with
  | nil => exact .inr rfl
  | cons event events ih =>
    cases event with
    | incomingOffer view => exact .inl rfl
    | offerExpired id =>
      simp only [showAfter, List.foldl_cons, PageEvent.shows] at ih ⊢
      split
      · exact .inl rfl
      · exact ih

/-- What events bring to an empty page, they bring to any. -/
theorem showAfter_of_none {events : List PageEvent} {view : IncomingOffer}
    (h : showAfter events none = some view) (shown : Option IncomingOffer) :
    showAfter events shown = some view ∧ .incomingOffer view ∈ events := by
  induction events generalizing shown with
  | nil => cases h
  | cons event events ih =>
    cases event with
    | incomingOffer view' =>
      refine ⟨h, ?_⟩
      have hor := showAfter_eq_or events (some view')
      rw [show showAfter events (some view') = some view from h] at hor
      rcases hor with hor | hor
      · exact List.mem_cons_of_mem _ (ih hor.symm none).2
      · cases hor
        exact List.mem_cons_self
    | offerExpired id =>
      have htail : showAfter events none = some view := h
      exact ⟨(ih htail _).1, List.mem_cons_of_mem _ (ih htail none).2⟩

/-- Once an offer is brought, what was shown before does not matter. -/
theorem showAfter_of_announces {events : List PageEvent} {id : Nat}
    (h : events.any (PageEvent.announces id) = true) (shown : Option IncomingOffer) :
    showAfter events shown = showAfter events none := by
  induction events generalizing shown with
  | nil => cases h
  | cons event events ih =>
    cases event with
    | incomingOffer view => rfl
    | offerExpired id' =>
      have htail : events.any (PageEvent.announces id) = true := h
      exact (ih htail _).trans (ih htail _).symm

theorem announces_of_mem {events : List PageEvent} {view : IncomingOffer}
    (h : .incomingOffer view ∈ events) : events.any (PageEvent.announces view.id) = true :=
  List.any_eq_true.mpr ⟨_, h, by simp [PageEvent.announces]⟩

/-! ## What the process does to the slot and to its events -/

/-- The event that `forward_offers` owes the page for what it has done to the slot: it has
stored an offer, or has looked into the slot after an expiry. -/
def Forwarder.due : Forwarder → List PageEvent
  | .emitting view => [.incomingOffer view]
  | .retiring id => [.offerExpired id]
  | _ => []

/-- The offer of a call that has taken it and does not fail, as far as it has come. -/
def Call.succeeding : Call → Option Nat
  | taken pending _ => some pending.view.id
  | sent id true => some id
  | returned id (.ok ()) => some id
  | _ => Option.none

theorem Call.removed_of_succeeding {call : Call} {id : Nat} (h : call.succeeding = some id) :
    call.removed = some id := by
  unfold Call.succeeding at h
  split at h <;> first | exact h | cases h

namespace Desk

/-- Call `c` is about to find the handler of offer `id` gone. -/
def failing (s : Desk) (id : Nat) : Action → Bool
  | .send c =>
    match s.calls c with
    | .taken pending _ => pending.view.id = id && !deliverable s.handlers pending.decision
    | _ => false
  | _ => false

/-- What a step does to the slot and to the events: nothing; an offer is stored, and due; what
was due is emitted; the slot is emptied after an expiry, and that is due; or a call empties
it. -/
inductive Flow (s : Desk) (a : Action) (s' : Desk) : Prop
  | still : Interface.emitted s a = [] → s'.forwarder.due = s.forwarder.due →
      s'.pending = s.pending → Flow s a s'
  | stored (p : PendingOffer) : Interface.emitted s a = [] →
      s'.forwarder.due = [.incomingOffer p.view] → s'.pending = some p → Flow s a s'
  | emitted : Interface.emitted s a = s.forwarder.due → s'.forwarder.due = [] →
      s'.pending = s.pending → Flow s a s'
  | expired (id : Nat) : Interface.emitted s a = [] → s.forwarder.due = [] →
      s'.forwarder.due = [.offerExpired id] → s'.pending = none →
      (∀ p, s.pending = some p → p.view.id = id) → Flow s a s'
  | taken : Interface.emitted s a = [] → s'.forwarder.due = s.forwarder.due →
      s'.pending = none →
      (∀ p, s.pending = some p → ∃ c decision, s.calls c = .resolved p.view.id decision ∧
        (s'.calls c).succeeding = some p.view.id) → Flow s a s'

variable {s s' : Desk} {a : Action} {event : Option Event}

theorem flow (h : s.Numbered) (hst : Step s a event s') : Flow s a s' := by
  cases hst with
  | store hforwarder _ | displace hforwarder _ => exact .stored _ rfl rfl rfl
  | emitIncoming hforwarder | emitExpired hforwarder =>
    exact .emitted (by simp [Interface.emitted, hforwarder, Forwarder.due]) rfl rfl
  | recv hforwarder _ _ | overflow hforwarder _ _ | enterWait hforwarder | wake hforwarder _
  | expire hforwarder _ =>
    exact .still rfl (by rw [hforwarder]; rfl) rfl
  | @takeExpired id pending hforwarder hpending =>
    -- the offer whose wait has expired is the one in the slot
    refine .expired id rfl (by rw [hforwarder]; rfl) rfl rfl (fun p hp => ?_)
    rw [h.pending hp]
    exact (h.current (by rw [hforwarder]; rfl)).symm
  | @skipExpired id hforwarder hpending =>
    refine .expired id rfl (by rw [hforwarder]; rfl) rfl hpending (fun p hp => ?_)
    rw [hpending] at hp
    cases hp
  | @take c decision pending hc hpending =>
    refine .taken rfl rfl rfl (fun p hp => ?_)
    cases hpending.symm.trans hp
    exact ⟨c, decision, hc, by simp [setCall, Call.succeeding]⟩
  | _ => exact .still rfl rfl rfl

/-- A call that has taken an offer goes on to succeed, unless it finds the handler gone. -/
theorem succeeding_step {c : CallId} {id : Nat} (hst : Step s a event s')
    (hc : (s.calls c).succeeding = some id) (hfailing : s.failing id a = false) :
    (s'.calls c).succeeding = some id := by
  cases hst with
  | @respond c' _ _ _ _ _ hc' _ | @respondFails c' _ _ _ _ _ hc' _ | @takeFails c' _ _ hc' _
  | @take c' _ _ hc' _ =>
    have hne : c ≠ c' := by
      rintro rfl
      simp [hc', Call.succeeding] at hc
    simpa [setCall, hne] using hc
  | @send c' decision pending hc' =>
    by_cases hcc : c = c'
    · subst hcc
      have hid : pending.view.id = id := by simpa [hc', Call.succeeding] using hc
      have hdeliverable : deliverable s.handlers pending.decision = true := by
        simpa [failing, hc', hid] using hfailing
      simp [hdeliverable, Call.succeeding, hid]
    · simpa [hcc] using hc
  | @notify c' id' delivered hc' =>
    by_cases hcc : c = c'
    · subst hcc
      cases delivered with
      | true => simpa [setCall, hc', Call.succeeding] using hc
      | false => simp [hc', Call.succeeding] at hc
    · simpa [setCall, hcc] using hc
  | _ => exact hc

/-- A call that finds the handler gone leaves everything else to the page as it was. -/
theorem failing_step {id : Nat} (hst : Step s a event s') (h : s.failing id a = true) :
    Interface.emitted s a = [] ∧ s'.forwarder = s.forwarder ∧ s'.pending = s.pending ∧
      ∃ c, (s'.calls c).removed = some id ∧ (s'.calls c).succeeding = none := by
  cases hst with
  | @send c decision pending hc =>
    obtain ⟨hid, hgone⟩ : pending.view.id = id ∧
        deliverable s.handlers pending.decision = false := by simpa [failing, hc] using h
    exact ⟨rfl, rfl, rfl, c, by simp [Call.removed, hid], by simp [Call.succeeding, hgone]⟩
  | _ => cases h

end Desk

namespace Interface

/-! ## What the page will show -/

/-- What the page shows; while `start()` runs, what `initial_state` has told it or would
tell it now. -/
def shown (s : Interface) : Option IncomingOffer :=
  match s.page.startUp with
  | .fetched _ incomingOffer => incomingOffer
  | .completed => s.page.incomingOffer
  | _ => s.desk.pending.map PendingOffer.view

/-- The events the page has still to receive, the one due included. -/
def upcoming (s : Interface) : List PageEvent := s.events ++ s.desk.forwarder.due

/-- What the page shows once it has received them. -/
def eventual (s : Interface) : Option IncomingOffer := showAfter s.upcoming s.shown

/-- An answer waits for a call that has taken offer `id` and does not fail. -/
def Closing (s : Interface) (id : Nat) : Prop :=
  ∃ k offer accept downloadDir, s.page.answers k = .awaiting offer accept downloadDir ∧
    (s.desk.calls k).succeeding = some id

/-- `start()` has completed, every event is delivered and none is due, and no answer is
suspended.  `forward_offers` may have an offer in hand that it has not stored yet, or an
expiry whose offer is still in the slot. -/
structure Quiescent (s : Interface) : Prop where
  completed : s.page.startUp = .completed
  events : s.events = []
  due : s.desk.forwarder.due = []
  answers : ∀ k, (s.page.answers k).suspended = false

/-- An event reaches the page before `start()` has completed. -/
def early (s : Interface) : Action → Bool
  | .deliver => s.page.startUp ≠ .completed
  | _ => false

/-- What holds of the page itself when no event reaches it before `start()` has
completed. -/
structure Wired (s : Interface) : Prop where
  connecting : s.page.startUp = .connecting → s.events = []
  untouched : s.page.startUp ≠ .completed → s.page.incomingOffer = none ∧
    s.page.dialogOpen = false ∧ ∀ k, (s.page.answers k).suspended = false
  dialog : s.page.dialogOpen = s.page.incomingOffer.isSome
  calls : ∀ {k id decision}, s.desk.calls k = .resolved id decision →
    ∃ offer accept downloadDir, s.page.answers k = .awaiting offer accept downloadDir

end Interface

namespace Page

variable {page : Page}

@[simp] theorem listen_incomingOffer (event : PageEvent) :
    (page.listen event).incomingOffer = event.shows page.incomingOffer := by
  cases event with
  | incomingOffer view => rfl
  | offerExpired id =>
    simp only [listen, PageEvent.shows]
    split <;> rfl

@[simp] theorem listen_startUp (event : PageEvent) :
    (page.listen event).startUp = page.startUp := by
  cases event with
  | incomingOffer view => rfl
  | offerExpired id =>
    simp only [listen]
    split <;> rfl

@[simp] theorem listen_answers (event : PageEvent) :
    (page.listen event).answers = page.answers := by
  cases event with
  | incomingOffer view => rfl
  | offerExpired id =>
    simp only [listen]
    split <;> rfl

theorem listen_dialog (event : PageEvent) (h : page.dialogOpen = page.incomingOffer.isSome) :
    (page.listen event).dialogOpen = (page.listen event).incomingOffer.isSome := by
  cases event with
  | incomingOffer view => rfl
  | offerExpired id =>
    simp only [listen]
    split
    · rfl
    · exact h

/-- A click makes an answer, a suspended one only if an offer is shown. -/
theorem answerOffer_eq (k : CallId) (accept : Bool) :
    ∃ answer, page.answerOffer k accept = page.setAnswer k answer ∧
      (page.incomingOffer = none → answer.suspended = false) := by
  unfold answerOffer
  split
  · exact ⟨_, rfl, fun _ => rfl⟩
  · rename_i offer hoffer
    split
    · exact ⟨_, rfl, by simp [hoffer]⟩
    · exact ⟨_, rfl, by simp [hoffer]⟩

/-- The directory dialog changes the answer and the error text only. -/
theorem chosen_eq (k : CallId) (offer : IncomingOffer) (choice : Except String (Option String)) :
    ∃ answer offerError,
      page.chosen k offer choice = { page.setAnswer k answer with offerError } := by
  unfold chosen
  split
  · split
    · exact ⟨_, _, rfl⟩
    · exact ⟨_, _, rfl⟩
  · exact ⟨_, _, rfl⟩
  · exact ⟨_, _, rfl⟩

@[simp] theorem responded_startUp (k : CallId) (offer : IncomingOffer) (accept : Bool)
    (result : Except String Unit) :
    (page.responded k offer accept result).startUp = page.startUp := by
  cases result <;> rfl

@[simp] theorem responded_answers (k : CallId) (offer : IncomingOffer) (accept : Bool)
    (result : Except String Unit) :
    (page.responded k offer accept result).answers =
      Function.update page.answers k .finished := by
  cases result <;> rfl

theorem responded_dialog (k : CallId) (offer : IncomingOffer) (accept : Bool)
    (result : Except String Unit) (h : page.dialogOpen = page.incomingOffer.isSome) :
    (page.responded k offer accept result).dialogOpen =
      (page.responded k offer accept result).incomingOffer.isSome := by
  cases result with
  | ok => rfl
  | error => exact h

@[simp] theorem started_startUp (mobile : Bool) (incomingOffer : Option IncomingOffer) :
    (page.started mobile incomingOffer).startUp = .completed := by
  cases incomingOffer <;> rfl

@[simp] theorem started_incomingOffer (mobile : Bool) (incomingOffer : Option IncomingOffer) :
    (page.started mobile incomingOffer).incomingOffer = incomingOffer := by
  cases incomingOffer <;> rfl

@[simp] theorem started_answers (mobile : Bool) (incomingOffer : Option IncomingOffer) :
    (page.started mobile incomingOffer).answers = page.answers := by
  cases incomingOffer <;> rfl

end Page

namespace Interface

variable {s s' : Interface} {a : Action}

/-- Answer `k`, whose call is not resolved, changes, and perhaps what a started page
shows. -/
theorem Wired.answer (h : Wired s) {page : Page} (k : CallId)
    (hstartUp : page.startUp = s.page.startUp)
    (huntouched : page.startUp ≠ .completed → page.incomingOffer = s.page.incomingOffer ∧
      page.dialogOpen = s.page.dialogOpen ∧ (page.answers k).suspended = false)
    (hdialog : page.dialogOpen = page.incomingOffer.isSome)
    (hothers : ∀ k', k' ≠ k → page.answers k' = s.page.answers k')
    (hcalls : ∀ {id decision}, s.desk.calls k ≠ .resolved id decision) :
    Wired { s with page } where
  connecting hc := h.connecting (hstartUp ▸ hc)
  untouched hc := by
    obtain ⟨hoffer, hopen, hanswers⟩ := h.untouched (hstartUp ▸ hc)
    obtain ⟨hoffer', hopen', hk⟩ := huntouched hc
    refine ⟨hoffer'.trans hoffer, hopen'.trans hopen, fun k' => ?_⟩
    by_cases hk' : k' = k
    · exact hk' ▸ hk
    · exact (congrArg Answer.suspended (hothers k' hk')).trans (hanswers k')
  dialog := hdialog
  calls {k' _ _} hr := by
    by_cases hk' : k' = k
    · exact absurd (hk' ▸ hr) hcalls
    · obtain ⟨offer, accept, downloadDir, hanswer⟩ := h.calls hr
      exact ⟨offer, accept, downloadDir, (hothers k' hk').trans hanswer⟩

theorem resolved_step {desk desk' : Desk} {a : Desk.Action} {event : Option Desk.Event} {k : CallId}
    {id : Nat} {decision : OfferDecision} (hst : Desk.Step desk a event desk')
    (h : desk'.calls k = .resolved id decision) :
    desk.calls k = .resolved id decision ∨
      ∃ accept downloadDir dirs, a = .respond k id accept downloadDir dirs := by
  cases hst with
  | @respond c _ accept downloadDir dirs _ hc _ =>
    by_cases hkc : k = c
    · subst hkc
      simp only [Desk.setCall, Function.update_self, Call.resolved.injEq] at h
      exact .inr ⟨accept, downloadDir, dirs, by rw [h.1]⟩
    · exact .inl (by simpa [Desk.setCall, hkc] using h)
  | @respondFails c _ _ _ _ _ hc _ | @take c _ _ hc _ | @takeFails c _ _ hc _ | @send c _ _ hc
  | @notify c _ _ hc =>
    by_cases hkc : k = c
    · subst hkc
      simp [Desk.setCall] at h
    · exact .inl (by simpa [Desk.setCall, hkc] using h)
  | _ => exact .inl h

theorem Wired.step (h : Wired s) (hearly : s.early a = false) (hst : Step s a s') : Wired s' := by
  cases hst with
  | @desk a desk hinvokes hdesk =>
    refine ⟨fun hc => ?_, h.untouched, h.dialog, fun {k id decision} hr => ?_⟩
    · have hc : s.page.startUp = .connecting := hc
      simp only [hc, if_true]
      exact h.connecting hc
    · rcases resolved_step (Desk.step_spec hdesk) hr with hr | ⟨accept, downloadDir, dirs, rfl⟩
      · exact h.calls hr
      · simp only [invokes] at hinvokes
        split at hinvokes
        · exact ⟨_, _, _, ‹_›⟩
        · cases hinvokes
  | connect hc => exact ⟨nofun, fun _ => h.untouched (by simp [hc]), h.dialog, h.calls⟩
  | fetch hc => exact ⟨nofun, fun _ => h.untouched (by simp [hc]), h.dialog, h.calls⟩
  | @complete mobile incomingOffer hc =>
    refine ⟨by simp, by simp, ?_, fun hr => by simpa using h.calls hr⟩
    cases incomingOffer with
    | none => exact (h.untouched (by simp [hc])).2.1
    | some offer => rfl
  | @answer k accept hk =>
    obtain ⟨answer, hanswer, hsuspended⟩ := s.page.answerOffer_eq k accept
    simp only [hanswer]
    refine h.answer k rfl (fun hc => ⟨rfl, rfl, ?_⟩) h.dialog (fun k' hk' => ?_) (fun hr => ?_)
    · simpa [Page.setAnswer] using hsuspended (h.untouched hc).1
    · simp [Page.setAnswer, hk']
    -- a resolved call belongs to an answer that waits for it
    · obtain ⟨_, _, _, hawaiting⟩ := h.calls hr
      cases hk.symm.trans hawaiting
  | @choose k offer choice hk =>
    obtain ⟨answer, offerError, hanswer⟩ := s.page.chosen_eq k offer choice
    simp only [hanswer]
    refine h.answer k rfl (fun hc => ?_) h.dialog (fun k' hk' => ?_) (fun hr => ?_)
    · have hsuspended := (h.untouched hc).2.2 k
      simp [hk, Answer.suspended] at hsuspended
    · simp [Page.setAnswer, hk']
    · obtain ⟨_, _, _, hawaiting⟩ := h.calls hr
      cases hk.symm.trans hawaiting
  | @deliver event events hevents =>
    have hcompleted : s.page.startUp = .completed := by simpa [early] using hearly
    refine ⟨?_, ?_, s.page.listen_dialog event h.dialog,
      fun hr => by simpa using h.calls hr⟩
    · simp [hcompleted]
    · simp [hcompleted]
  | @respond k offer accept downloadDir result hk hresult =>
    refine h.answer k (by simp) (fun hc => ?_)
      (s.page.responded_dialog k offer accept result h.dialog) (fun k' hk' => by simp [hk'])
      (fun hr => ?_)
    · have hsuspended := (h.untouched (by simpa using hc)).2.2 k
      simp [hk, Answer.suspended] at hsuspended
    · simp [hr, Call.result] at hresult

end Interface

end IrohShare
