import Mathlib.Data.List.Nodup
import IrohShare.TerminalDialog
import IrohShare.Consent

/-!
# Consent at the terminal

A download is traced back, over the handler's decision and the oneshot channel, to the
one exchange in which the user was prompted for that very offer and answered with a
yes.
-/
namespace IrohShare
namespace Terminal
open ByteStream LineInput Transition
open Desk (HandlersTracked handlerTrail)

/-- The events of the handlers, most recent first. -/
def tasks (log : List Event) : List Desk.Event :=
  log.filterMap (fun
    | .task event => some event
    | _ => none)

/-- The decision `d` for handler `h` was read from a line and reached the handler. -/
def Answered (downloadDir : String) (log : List Event) (h : HandlerId) (d : OfferDecision) : Prop :=
  ∃ request answer, request.decision = h ∧ .answered request answer true ∈ log ∧
    d = terminalDecision downloadDir answer

/-- What a run and its log say of each other's decisions. -/
structure Decisions (downloadDir : String) (s : Terminal) (log : List Event) : Prop where
  handlers : HandlersTracked s.desk (tasks log)
  slot : ∀ {h handler d}, s.handlers h = some handler → handler.slot = some d →
    Answered downloadDir log h d
  decided : ∀ {h d}, .decided h d ∈ tasks log → Answered downloadDir log h d

variable {downloadDir : String} {s s' : Terminal} {log : List Event} {event : Option Event}

theorem mem_tasks {e : Desk.Event} : e ∈ tasks log ↔ .task e ∈ log := by
  simp only [tasks, List.mem_filterMap]
  constructor
  · rintro ⟨event, hmem, hevent⟩
    cases event <;> cases hevent
    exact hmem
  · exact fun hmem => ⟨_, hmem, rfl⟩

theorem Answered.append {h : HandlerId} {d : OfferDecision} (ha : Answered downloadDir log h d)
    (es : List Event) : Answered downloadDir (es ++ log) h d := by
  obtain ⟨request, answer, hdecision, hmem, hd⟩ := ha
  exact ⟨request, answer, hdecision, List.mem_append_right _ hmem, hd⟩

theorem deliverable_of_slot {handlers : HandlerId → Option Handler} {h h₀ : HandlerId}
    {d d' : OfferDecision} {handler' : Handler} (hh : Desk.deliver handlers h₀ d h = some handler')
    (hslot : handler'.slot = some d') :
    (∃ handler, handlers h = some handler ∧ handler.slot = some d') ∨
      h = h₀ ∧ d' = d ∧ Desk.deliverable handlers h₀ = true := by
  unfold Desk.deliver at hh
  split at hh
  · rename_i heq
    subst heq
    obtain ⟨handler, hhandler, rfl⟩ := Option.map_eq_some_iff.mp hh
    split at hslot
    · rename_i hlistening
      exact .inr ⟨rfl, (Option.some.inj hslot).symm, by
        simp [Desk.deliverable, hhandler, hlistening]⟩
    · exact .inl ⟨handler, hhandler, hslot⟩
  · exact .inl ⟨handler', hh, hslot⟩

/-- What a handler's step finds in the slots, and the decision it takes from one. -/
theorem slots_of_step {a : Desk.Action} {event : Option Desk.Event} {desk desk' : Desk}
    (ha : ofHandler a = true) (hst : Desk.Step desk a event desk') :
    (∀ {h handler'}, desk'.handlers h = some handler' → handler'.slot = none ∨
      ∃ handler, desk.handlers h = some handler ∧ handler'.slot = handler.slot) ∧
    ∀ {h d}, event = some (.decided h d) →
      ∃ handler, desk.handlers h = some handler ∧ handler.slot = some d := by
  cases hst with
  | connect => exact ⟨Desk.slot_update (.inl rfl), fun heq => by cases heq⟩
  | enqueue hh | decisionLost hh | elapse hh | dropReceiver hh | download hh | acceptFails hh =>
    exact ⟨Desk.slot_update (.inr ⟨_, hh, rfl⟩), fun heq => by cases heq⟩
  | decide hh hphase hslot =>
    refine ⟨Desk.slot_update (.inl rfl), fun heq => ?_⟩
    cases heq
    exact ⟨_, hh, hslot⟩
  | _ => cases ha

theorem Decisions.step (hd : Decisions downloadDir s log) {a : Action}
    (hst : Step downloadDir s a event s') :
    Decisions downloadDir s' (event.toList ++ log) := by
  cases hst with
  | @task a event _ ha _ hst =>
    obtain ⟨hslots, hdecided⟩ := slots_of_step ha hst
    have htasks : tasks ((event.map Event.task).toList ++ log) = event.toList ++ tasks log := by
      cases event <;> rfl
    refine ⟨htasks ▸ hd.handlers.step hst, fun hh hslot => ?_, fun {h d} hmem => ?_⟩
    · rcases hslots hh with hnone | ⟨handler, hh, heq⟩
      · rw [hnone] at hslot
        cases hslot
      · exact (hd.slot hh (heq.symm.trans hslot)).append _
    · rw [htasks] at hmem
      rcases List.mem_append.mp hmem with hmem | hmem
      · obtain ⟨handler, hh, hslot⟩ := hdecided (Option.mem_toList.mp hmem)
        exact (hd.slot hh hslot).append _
      · exact (hd.decided hmem).append _
  | @enqueue h handler hh hphase hroom =>
    have hst : Desk.Step s.desk (.enqueue h) none _ :=
      .enqueue hh hphase hroom (fun heq => by cases heq)
    refine ⟨hd.handlers.step hst, fun hh' hslot => ?_, fun hmem => (hd.decided hmem).append _⟩
    rcases (slots_of_step rfl hst).1 hh' with hnone | ⟨handler', hh', heq⟩
    · rw [hnone] at hslot
      cases hslot
    · exact (hd.slot hh' (heq.symm.trans hslot)).append _
  | invalid | readFails =>
    refine ⟨hd.handlers.same (Desk.sameHandlers_dropSenders _) (fun _ => rfl),
      fun hh hslot => ?_, fun hmem => (hd.decided hmem).append _⟩
    obtain ⟨handler, hh, heq⟩ := Desk.slot_dropSenders hh
    exact (hd.slot hh (heq ▸ hslot)).append _
  | @answer request answer hloop =>
    refine ⟨hd.handlers.same (Desk.sameHandlers_deliver _ _) (fun _ => rfl),
      fun hh hslot => ?_, fun hmem => (hd.decided hmem).append _⟩
    rcases deliverable_of_slot hh hslot with ⟨handler, hh, hslot⟩ | ⟨rfl, rfl, hdeliverable⟩
    · exact (hd.slot hh hslot).append _
    · exact ⟨request, answer, rfl, by simp [hdeliverable], rfl⟩
  | recv | more | line | ctrlC =>
    exact ⟨hd.handlers.same (.refl _) (fun _ => rfl), fun hh hslot => (hd.slot hh hslot).append _,
      fun hmem => (hd.decided hmem).append _⟩

theorem decisions {l : Logged Terminal Event} (hl : (logged downloadDir).Reachable l) :
    Decisions downloadDir l.state l.log := by
  refine hl.invariant (I := fun l => Decisions downloadDir l.state l.log) ?_ ?_
  · rintro ⟨s, log⟩ ⟨hs, hlog⟩
    cases hs
    cases hlog
    exact ⟨.start, fun hh _ => (by cases hh), fun hmem => (by cases hmem)⟩
  · rintro l a l' - hd - hst
    obtain ⟨hst, hlog⟩ := logged_step_spec hst
    exact hlog ▸ hd.step hst

/-! ## Exchanges and events -/

/-- An answer belongs to an exchange of the dialog. -/
theorem exchange_of_answered {exchanges : List Exchange} {rest : List Event}
    (ht : Told s log exchanges rest) {request : OfferRequest} {answer : String} {delivered : Bool}
    (hmem : .answered request answer delivered ∈ log) :
    ∃ x ∈ exchanges, x.request = request ∧ x.answer = answer ∧ x.delivered = delivered := by
  have hdialog : .answered request answer delivered ∈ dialog log := by
    simp [dialog, hmem, Event.ofLoop]
  have hrest : .answered request answer delivered ∉ rest := by
    have hmidway := ht.midway
    cases hloop : s.loop <;> rw [hloop] at hmidway
    case selecting => simp [show rest = [] from hmidway]
    case reading =>
      obtain ⟨cs, rfl, -⟩ := hmidway
      simp
    case answering =>
      obtain ⟨cs, lost, rfl, -⟩ := hmidway
      simp
    case ended =>
      rcases hmidway with rfl | ⟨request, cs, rfl⟩ <;> simp
  rw [ht.dialog] at hdialog
  obtain ⟨x, hx, hevent⟩ := List.mem_flatMap.mp ((List.mem_append.mp hdialog).resolve_right hrest)
  refine ⟨x, hx, ?_⟩
  simp only [Exchange.events, List.cons_append, List.mem_cons, reduceCtorEq, List.mem_append,
    List.mem_map, and_false, exists_false, Event.answered.injEq, List.not_mem_nil, or_false,
    false_or] at hevent
  exact ⟨hevent.1.symm, hevent.2.1.symm, hevent.2.2.symm⟩

theorem mem_queued_of_exchange {exchanges : List Exchange} {rest : List Event}
    (ht : Told s log exchanges rest) {x : Exchange} (hx : x ∈ exchanges) :
    x.request ∈ queued log := by
  rw [ht.queued, List.append_assoc]
  exact List.mem_append_left _ (List.mem_map_of_mem hx)

/-- One exchange for each handler. -/
theorem exchange_unique {exchanges : List Exchange} {rest : List Event}
    (ht : Told s log exchanges rest) (ho : Offered s log) {x y : Exchange} (hx : x ∈ exchanges)
    (hy : y ∈ exchanges) (heq : x.request.decision = y.request.decision) : x = y := by
  have hnodup : (exchanges.map (fun x => x.request.decision)).Nodup := by
    have hsub : (exchanges.map Exchange.request).Sublist (queued log) := by
      rw [ht.queued, List.append_assoc]
      exact List.sublist_append_left ..
    simpa [List.map_map, Function.comp_def] using
      ho.nodup.sublist (hsub.map OfferRequest.decision)
  exact List.inj_on_of_nodup_map hnodup hx hy heq

/-! ## What stands behind a download -/

/-- What stands behind a download, in the log `log` of the run and in `pre`, what was
before the download: the one exchange in which the user was prompted for the offer and
said yes in time, the directory of the command, no refusal of any kind, and one
connection, whose peer is the only provider asked, for the hash of the ticket. -/
structure TerminalConsent (downloadDir : String) (log pre : List Event) (h : HandlerId)
    (dir : String) (offer : Offer) : Prop where
  command : dir = downloadDir
  exchange : ∃ x : Exchange, x.request = ⟨offer, h⟩ ∧ x.events <:+: dialog pre ∧
    confirm x.answer = true ∧ x.delivered = true ∧
    ∀ request answer delivered, .answered request answer delivered ∈ log →
      request.decision = h → request = ⟨offer, h⟩ ∧ answer = x.answer ∧ delivered = true
  declined : .task (.decided h .decline) ∉ log
  gaveUp : .task (.gaveUp h) ∉ log
  provider : ∃ remote, .task (.connected h remote offer) ∈ pre ∧ remote = offer.ticket.addr.id ∧
    ∀ host, IrohShare.download host dir offer =
      IrohShare.download (host.onlyFrom offer.ticket.hash remote) dir offer

theorem accept_of_terminalDecision {answer dir : String}
    (h : OfferDecision.accept dir = terminalDecision downloadDir answer) :
    confirm answer = true ∧ dir = downloadDir := by
  unfold terminalDecision at h
  split at h
  · rename_i hconfirm
    cases h
    exact ⟨hconfirm, rfl⟩
  · cases h

/-- What a handler has when it calls `download`. -/
theorem before_download {l : Logged Terminal Event} (hl : (logged downloadDir).Reachable l)
    {post pre : List Event} {h : HandlerId} {dir : String} {offer : Offer}
    (hlog : l.log = post ++ .task (.download h dir offer) :: pre) :
    .task (.connected h offer.ticket.addr.id offer) ∈ pre ∧ dir = downloadDir ∧
    ∃ x : Exchange, x.request = ⟨offer, h⟩ ∧ x.events <:+: dialog pre ∧
      confirm x.answer = true ∧ x.delivered = true := by
  let Q : Event → List Event → Prop := fun e pre => ∀ h dir offer,
    e = .task (.download h dir offer) →
    .task (.connected h offer.ticket.addr.id offer) ∈ pre ∧ dir = downloadDir ∧
    ∃ x : Exchange, x.request = ⟨offer, h⟩ ∧ x.events <:+: dialog pre ∧
      confirm x.answer = true ∧ x.delivered = true
  refine (?_ : Q (.task (.download h dir offer)) pre) h dir offer rfl
  refine hl.forall_event ?_ hlog
  rintro l a l' _ hl - hst hevent h dir offer rfl
  obtain ⟨hst, -⟩ := logged_step_spec hst
  rw [hevent] at hst
  have hd := decisions hl
  have ho := offered hl
  obtain ⟨exchanges, rest, ht⟩ := told hl
  generalize l'.state = s' at hst
  generalize hev : some (Event.task (.download h dir offer)) = ev at hst
  cases hst with
  | @task a event s' ha _ hst _ _ =>
    obtain ⟨_, rfl, heq⟩ := Option.map_eq_some_iff.mp hev.symm
    cases heq
    generalize s'.desk = desk' at hst
    cases hst with
    | @download _ handler _ hh hphase =>
      have hstory := hd.handlers.story hh
      simp only [Desk.HandlerStory, hphase] at hstory
      have hdecided : .decided h (.accept dir) ∈ handlerTrail (tasks l.log) h := by simp [hstory]
      have hconnected :
        .connected h handler.remote handler.offer ∈ handlerTrail (tasks l.log) h := by
        simp [hstory]
      obtain ⟨request, answer, hrequest, hanswered, hdecision⟩ :=
        hd.decided (List.mem_filter.mp hdecided).1
      obtain ⟨hconfirm, hdir⟩ := accept_of_terminalDecision hdecision
      obtain ⟨x, hx, rfl, rfl, hdelivered⟩ := exchange_of_answered ht hanswered
      -- the offer of the exchange is the handler's own
      obtain ⟨handler', hh', -, hoffer⟩ := ho.handler _ (mem_queued_of_exchange ht hx)
      have hh : l.state.handlers h = some handler := hh
      rw [hrequest, hh] at hh'
      cases hh'
      refine ⟨?_, hdir, x, ?_, ?_, hconfirm, hdelivered⟩
      · rw [hd.handlers.peer hh (by simp [hphase])]
        exact mem_tasks.mp (List.mem_filter.mp hconnected).1
      · rw [hoffer, ← hrequest]
      · obtain ⟨front, back, rfl⟩ := List.append_of_mem hx
        rw [ht.dialog]
        exact ⟨front.flatMap Exchange.events, back.flatMap Exchange.events ++ rest, by simp⟩
  | _ => cases hev

/-- **No transfer without consent at the terminal.**  In every run, behind every
download stands the exchange that allowed it; each handler starts at most one
download; and an offer that was answered by anything but a yes is never downloaded. -/
theorem terminal_transfers_consented {l : Logged Terminal Event}
    (hl : (logged downloadDir).Reachable l) :
    (∀ post pre h dir offer, l.log = post ++ .task (.download h dir offer) :: pre →
      TerminalConsent downloadDir l.log pre h dir offer) ∧
    (∀ h, (tasks l.log).countP (Desk.Event.downloads h) ≤ 1) ∧
    ∀ request answer delivered, .answered request answer delivered ∈ l.log →
      confirm answer = false → ∀ dir offer,
        .task (.download request.decision dir offer) ∉ l.log := by
  have hd := decisions hl
  have ho := offered hl
  obtain ⟨exchanges, rest, ht⟩ := told hl
  have hconsent : ∀ post pre h dir offer, l.log = post ++ .task (.download h dir offer) :: pre →
      TerminalConsent downloadDir l.log pre h dir offer := by
    intro post pre h dir offer hlog
    obtain ⟨hconnected, hdir, x, hx, hinfix, hconfirm, hdelivered⟩ := before_download hl hlog
    have hdownload : .download h dir offer ∈ tasks l.log := mem_tasks.mpr (by simp [hlog])
    obtain ⟨remote, htrail⟩ := hd.handlers.trail_of_download hdownload
    have honly : ∀ {e : Desk.Event}, .task e ∈ l.log → e.ofHandler h = true →
        e ∈ [Desk.Event.download h dir offer, .decided h (.accept dir),
        .connected h remote offer] := by
      intro e he hof
      rw [← htrail]
      exact List.mem_filter.mpr ⟨mem_tasks.mpr he, hof⟩
    have hanswered : .answered x.request x.answer true ∈ l.log := by
      have hmem : .answered x.request x.answer x.delivered ∈ dialog pre :=
        hinfix.subset (by simp [Exchange.events])
      rw [hdelivered] at hmem
      have hmem := (List.mem_filter.mp (List.mem_reverse.mp hmem)).1
      rw [hlog]
      exact List.mem_append_right _ (List.mem_cons_of_mem _ hmem)
    exact {
      command := hdir
      exchange := by
        refine ⟨x, hx, hinfix, hconfirm, hdelivered, ?_⟩
        intro request answer delivered hmem hrequest
        obtain ⟨y, hy, rfl, rfl, rfl⟩ := exchange_of_answered ht hmem
        obtain ⟨z, hz, hzx, hzanswer, hzdelivered⟩ := exchange_of_answered ht hanswered
        have hyz : y = z := exchange_unique ht ho hy hz (by rw [hrequest, hzx, hx])
        subst hyz
        exact ⟨hzx.trans hx, hzanswer, hzdelivered⟩
      declined := fun hmem => by simpa using honly hmem (by simp [Desk.Event.ofHandler])
      gaveUp := fun hmem => by simpa using honly hmem (by simp [Desk.Event.ofHandler])
      provider := ⟨_, hconnected, rfl, fun host => download_onlyFrom host ..⟩ }
  refine ⟨hconsent, hd.handlers.downloads_le_one, ?_⟩
  intro request answer delivered hmem hno dir offer hdownload
  obtain ⟨post, pre, hlog⟩ := List.append_of_mem hdownload
  obtain ⟨x, -, -, hyes, -, honly⟩ := (hconsent post pre _ dir offer hlog).exchange
  obtain ⟨-, rfl, -⟩ := honly request answer delivered hmem rfl
  rw [hno] at hyes
  cases hyes

/-- One offer, accepted; another, let pass. -/
def acceptedAtTerminal : List Action :=
  [.task (.connect 0 ⟨1⟩ Offer.sampleOffer), .task (.enqueue 0),
    .task (.connect 1 ⟨1⟩ Offer.sampleOffer), .recv, .task (.enqueue 1), .read [0x59],
    .read [newline], .answer, .task (.decide 0), .recv, .read [], .answer, .task (.download 0)]

theorem terminal_transfers_consented_sample : ∃ l pre,
    (logged "/tmp").exec ⟨start, []⟩ acceptedAtTerminal = some l ∧
    l.log = .task (.download 0 "/tmp" Offer.sampleOffer) :: pre ∧
    TerminalConsent "/tmp" l.log pre 0 "/tmp" Offer.sampleOffer ∧
    ∀ dir offer, .task (.download 1 dir offer) ∉ l.log := by
  refine ⟨_, _, rfl, rfl, ?_⟩
  have hall := terminal_transfers_consented
    (logged_reachable (rfl : (logged "/tmp").exec ⟨start, []⟩ acceptedAtTerminal = some _))
  exact ⟨hall.1 [] _ _ _ _ rfl,
    hall.2.2 ⟨Offer.sampleOffer, 1⟩ "" true (by decide) (by decide)⟩

end Terminal
end IrohShare
