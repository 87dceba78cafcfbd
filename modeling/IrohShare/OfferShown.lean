import IrohShare.OfferDialog

/-!
# No lost offer and no dead dialog

Every step keeps what the page will show and the offer in the slot together, with two
exceptions, both at the end of an answer.  A successful response empties the dialog: if
the next offer is in it already, that offer is lost.  A call that finds the handler of its
offer gone has emptied the slot, and its error leaves the dialog open: the dialog is dead.
-/
namespace IrohShare
open Transition

namespace Interface

variable {s s' : Interface} {a : Action}

/-! ## What a step does to the offer the page will show -/

/-- What the page will show stays, as does the offer in the slot; or it becomes that offer;
or the slot is empty, and an offer the page goes on to show is being closed; or a successful
response empties the dialog. -/
inductive Turn (s : Interface) (a : Action) (s' : Interface) : Prop
  | kept : s'.eventual = s.eventual → s'.desk.pending = s.desk.pending → Turn s a s'
  | followed : s'.eventual = s'.desk.pending.map PendingOffer.view → Turn s a s'
  | emptied : s'.desk.pending = none →
      (∀ {view}, s'.eventual = some view → s.eventual = some view ∧
        (s.desk.pending.map PendingOffer.view = some view → s'.Closing view.id)) → Turn s a s'
  | cleared {k : CallId} : a = .respond k → (s.desk.calls k).result = some (.ok ()) →
      s.page.startUp = .completed → s'.desk = s.desk →
      s'.eventual = showAfter s.upcoming none → Turn s a s'

theorem shown_congr (hstartUp : s'.page.startUp = s.page.startUp)
    (hoffer : s'.page.incomingOffer = s.page.incomingOffer)
    (hpending : s'.desk.pending = s.desk.pending) : s'.shown = s.shown := by
  unfold shown
  rw [hstartUp, hoffer, hpending]

/-- A page that changes neither what it shows nor where `start()` is. -/
theorem Turn.page {page : Page} (hstartUp : page.startUp = s.page.startUp)
    (hoffer : page.incomingOffer = s.page.incomingOffer) : Turn s a { s with page } := by
  refine .kept ?_ rfl
  have hshown : shown { s with page } = s.shown := shown_congr hstartUp hoffer rfl
  exact congrArg (showAfter s.upcoming) hshown

/-- A step of the process, `s'` being the state after it. -/
theorem Turn.desk {a : Desk.Action} (hnumbered : s.desk.Numbered) (hwired : s.Wired)
    (hdesk : s.desk.step a = some s'.desk) (hpage : s'.page = s.page)
    (hevents : s'.events =
      if s.page.startUp = .connecting then s.events else s.events ++ emitted s.desk a) :
    Turn s (.desk a) s' := by
  have hsame : emitted s.desk a = [] → s'.events = s.events := by
    intro hemitted
    simp [hevents, hemitted]
  have hshown : s'.desk.pending = s.desk.pending → s'.shown = s.shown :=
    shown_congr (by rw [hpage]) (by rw [hpage])
  -- a slot that is emptied is nothing that `initial_state` tells
  have hemptied : s'.desk.pending = none → s'.shown = s.shown ∨ s'.shown = none := by
    intro hnone
    unfold shown
    rw [hpage, hnone]
    cases s.page.startUp <;> simp
  have hbefore : ∀ {events : List PageEvent} {view : IncomingOffer}, s'.desk.pending = none →
      showAfter events s'.shown = some view → showAfter events s.shown = some view := by
    intro events view hnone h
    rcases hemptied hnone with hshown | hshown <;> rw [hshown] at h
    · exact h
    · exact (showAfter_of_none h s.shown).1
  cases Desk.flow hnumbered (Desk.step_spec hdesk) with
  | still hemitted hdue hpending =>
    refine .kept ?_ hpending
    simp only [eventual, upcoming, hsame hemitted, hdue, hshown hpending]
  | stored p hemitted hdue hpending =>
    refine .followed ?_
    simp only [eventual, upcoming, hdue, hpending, showAfter_append]
    rfl
  | emitted hemitted hdue hpending =>
    by_cases hc : s.page.startUp = .connecting
    -- nobody listens yet: the event is lost, and `initial_state` will tell
    · refine .followed ?_
      have hnone : s'.events = [] := by simp [hevents, hc, hwired.connecting hc]
      simp [eventual, upcoming, hnone, hdue, shown, hpage, hc, showAfter]
    · refine .kept ?_ hpending
      have hmoved : s'.events = s.events ++ s.desk.forwarder.due := by
        simp [hevents, hc, hemitted]
      simp only [eventual, upcoming, hmoved, hdue, List.append_nil, hshown hpending]
  | expired id hemitted hdue hdue' hnone hown =>
    refine .emptied hnone (fun {view} h => ?_)
    simp only [eventual, upcoming, hsame hemitted, hdue', showAfter_append] at h
    obtain ⟨hne, hsome⟩ := Option.ite_none_left_eq_some.mp h
    have hview : s.eventual = some view := by
      simp only [eventual, upcoming, hdue, List.append_nil]
      exact hbefore hnone hsome
    -- the offer whose wait expired is the one in the slot
    refine ⟨hview, fun hslot => absurd ?_ hne⟩
    obtain ⟨p, hp, rfl⟩ := Option.map_eq_some_iff.mp hslot
    rw [hsome, Option.map_some, hown p hp]
  | taken hemitted hdue hnone htaken =>
    refine .emptied hnone (fun {view} h => ?_)
    have hup : s'.upcoming = s.upcoming := by simp only [upcoming, hsame hemitted, hdue]
    refine ⟨hbefore hnone (hup ▸ h), fun hview => ?_⟩
    obtain ⟨p, hp, rfl⟩ := Option.map_eq_some_iff.mp hview
    obtain ⟨c, decision, hc, hsucceeding⟩ := htaken p hp
    obtain ⟨offer, accept, downloadDir, hanswer⟩ := hwired.calls hc
    exact ⟨c, offer, accept, downloadDir, by rw [hpage]; exact hanswer, hsucceeding⟩

/-- A successful response empties the dialog of a started page. -/
theorem cleared {k : CallId} (hwired : s.Wired) (hst : Step s (.respond k) s')
    (hok : (s.desk.calls k).result = some (.ok ())) :
    s.page.startUp = .completed ∧ s'.desk = s.desk ∧
      s'.eventual = showAfter s.upcoming none := by
  cases hst with
  | respond hk hresult =>
    cases hresult.symm.trans hok
    have hcompleted : s.page.startUp = .completed := by
      by_contra hc
      have hsuspended := (hwired.untouched hc).2.2 k
      simp [hk, Answer.suspended] at hsuspended
    refine ⟨hcompleted, rfl, ?_⟩
    simp [eventual, upcoming, shown, hcompleted, Page.responded, Page.setAnswer]

theorem turn (hnumbered : s.desk.Numbered) (hwired : s.Wired) (hearly : s.early a = false)
    (hst : Step s a s') : Turn s a s' := by
  cases hst with
  | desk _ hdesk => exact .desk hnumbered hwired hdesk rfl rfl
  | connect hc =>
    refine .kept ?_ rfl
    simp [eventual, upcoming, shown, hc]
  | fetch hc =>
    refine .kept ?_ rfl
    simp [eventual, upcoming, shown, hc]
  | complete hc =>
    refine .kept ?_ rfl
    simp [eventual, upcoming, shown, hc]
  | @answer k accept hk =>
    obtain ⟨answer, hanswer, -⟩ := s.page.answerOffer_eq k accept
    simp only [hanswer]
    exact .page rfl rfl
  | @choose k offer choice hk =>
    obtain ⟨answer, offerError, hanswer⟩ := s.page.chosen_eq k offer choice
    simp only [hanswer]
    exact .page rfl rfl
  | deliver hevents =>
    have hcompleted : s.page.startUp = .completed := by simpa [early] using hearly
    refine .kept ?_ rfl
    simp [eventual, upcoming, shown, hcompleted, hevents, showAfter]
  | @respond k offer accept downloadDir result hk hresult =>
    cases result with
    | error error => exact .page rfl rfl
    | ok =>
      obtain ⟨hcompleted, hdesk, heventual⟩ := cleared hwired (.respond hk hresult) hresult
      exact .cleared rfl hresult hcompleted hdesk heventual

/-! ## What breaks the bond -/

/-- A successful response is processed while the page shows the offer in the slot, and that
offer will not be announced again. -/
def forgets (s : Interface) : Action → Bool
  | .respond k =>
    match (s.desk.calls k).result, s.desk.pending with
    | some (.ok ()), some p =>
      s.page.incomingOffer = some p.view && !s.upcoming.any (PageEvent.announces p.view.id)
    | _, _ => false
  | _ => false

/-- A call finds the handler of the offer the page will show gone, or a successful response
is processed before its own offer is announced. -/
def strands (s : Interface) : Action → Bool
  | .desk a =>
    match s.eventual with
    | some view => s.desk.failing view.id a
    | none => false
  | .respond k =>
    match s.desk.calls k with
    | .returned id (.ok ()) => (showAfter s.upcoming none).map IncomingOffer.id = some id
    | _ => false
  | _ => false

/-- The runs after `start()` in which no step forgets an offer. -/
abbrev Keeps (s : Interface) (a : Action) : Prop := s.early a = false ∧ s.forgets a = false

/-- The runs after `start()` in which no step strands an offer. -/
abbrev Closes (s : Interface) (a : Action) : Prop := s.early a = false ∧ s.strands a = false

/-- The page will show the offer in the slot. -/
def Kept (s : Interface) : Prop :=
  ∀ p, s.desk.pending = some p → s.eventual = some p.view

/-- An offer the page will show is in the slot, or an answer is about to close it. -/
def Live (s : Interface) : Prop :=
  ∀ view, s.eventual = some view →
    s.desk.pending.map PendingOffer.view = some view ∨ s.Closing view.id

theorem wired {C : Interface → Action → Prop} (hC : ∀ s a, C s a → s.early a = false)
    (hs : machine.ReachableBy C s) : s.Wired := by
  refine hs.invariant (I := Wired) ?_ ?_
  · rintro _ ⟨mobile, rfl⟩
    exact ⟨fun _ => rfl, fun _ => ⟨rfl, rfl, fun _ => rfl⟩, rfl, nofun⟩
  · intro s a s' _ h hc hst
    exact h.step (hC s a hc) (step_spec hst)

theorem Kept.step (h : Kept s) (hturn : Turn s a s') (hforgets : s.forgets a = false) :
    Kept s' := by
  intro p hp
  cases hturn with
  | kept heventual hslot => exact heventual.trans (h p (hslot ▸ hp))
  | followed heventual => rw [heventual, hp, Option.map_some]
  | emptied hslot _ => cases hslot.symm.trans hp
  | cleared ha hresult hcompleted hdesk heventual =>
    subst ha
    rw [hdesk] at hp
    rw [heventual]
    have hbefore : showAfter s.upcoming s.shown = some p.view := h p hp
    cases hannounced : s.upcoming.any (PageEvent.announces p.view.id) with
    | true => rw [← showAfter_of_announces hannounced s.shown, hbefore]
    | false =>
      have hother : s.page.incomingOffer ≠ some p.view := by
        simpa [forgets, hresult, hp, hannounced] using hforgets
      have hshown : s.shown = s.page.incomingOffer := by simp [shown, hcompleted]
      -- events bring the offer back, or the page did not show it
      rcases showAfter_eq_or s.upcoming s.shown with hnone | hsame
      · rw [← hnone, hbefore]
      · exact absurd (hshown.symm.trans (hsame.symm.trans hbefore)) hother

/-- An offer that is being closed stays so until its response is processed, unless its call
fails. -/
theorem Closing.step {id : Nat} (h : s.Closing id) (hst : Step s a s') :
    s'.Closing id ∨ (∃ a', a = .desk a' ∧ s.desk.failing id a' = true) ∨
      ∃ k, a = .respond k ∧ s.desk.calls k = .returned id (.ok ()) := by
  obtain ⟨k, offer, accept, downloadDir, hanswer, hsucceeding⟩ := h
  cases hst with
  | @desk a desk _ hdesk =>
    cases hfailing : s.desk.failing id a with
    | true => exact .inr (.inl ⟨a, rfl, hfailing⟩)
    | false =>
      have hstill := Desk.succeeding_step (Desk.step_spec hdesk) hsucceeding hfailing
      exact .inl ⟨k, offer, accept, downloadDir, hanswer, hstill⟩
  | connect _ | fetch _ => exact .inl ⟨k, offer, accept, downloadDir, hanswer, hsucceeding⟩
  | complete _ => exact .inl ⟨k, offer, accept, downloadDir, by simpa using hanswer, hsucceeding⟩
  | deliver _ => exact .inl ⟨k, offer, accept, downloadDir, by simpa using hanswer, hsucceeding⟩
  | @answer k' accept' hk' =>
    have hne : k ≠ k' := by
      rintro rfl
      cases hk'.symm.trans hanswer
    obtain ⟨answer, heq, -⟩ := s.page.answerOffer_eq k' accept'
    exact .inl ⟨k, offer, accept, downloadDir, by simpa [heq, Page.setAnswer, hne] using hanswer,
      hsucceeding⟩
  | @choose k' offer' choice hk' =>
    have hne : k ≠ k' := by
      rintro rfl
      cases hk'.symm.trans hanswer
    obtain ⟨answer, offerError, heq⟩ := s.page.chosen_eq k' offer' choice
    exact .inl ⟨k, offer, accept, downloadDir, by simpa [heq, Page.setAnswer, hne] using hanswer,
      hsucceeding⟩
  | @respond k' _ _ _ result _ hresult =>
    by_cases hne : k = k'
    · subst hne
      refine .inr (.inr ⟨k, rfl, ?_⟩)
      cases hcall : s.desk.calls k with
      | returned id' result' =>
        cases result' with
        | ok =>
          simp only [hcall, Call.succeeding, Option.some.injEq] at hsucceeding
          subst hsucceeding
          rfl
        | error => simp [hcall, Call.succeeding] at hsucceeding
      | _ => simp_all [Call.result, Call.succeeding]
    · exact .inl ⟨k, offer, accept, downloadDir, by simpa [hne] using hanswer, hsucceeding⟩

/-- An offer that is being closed and goes on to be shown is being closed after the step,
unless the step strands it. -/
theorem Closing.keep {view : IncomingOffer} (h : s.Closing view.id) (hwired : s.Wired)
    (hst : Step s a s') (hbefore : s.eventual = some view) (hafter : s'.eventual = some view)
    (hstrands : s.strands a = false) : s'.Closing view.id := by
  rcases h.step hst with hclosing | ⟨a', rfl, hfailing⟩ | ⟨k, rfl, hcall⟩
  · exact hclosing
  · simp [strands, hbefore, hfailing] at hstrands
  · obtain ⟨-, -, heventual⟩ := cleared hwired hst (by simp [hcall, Call.result])
    have hemptied : showAfter s.upcoming none = some view := heventual.symm.trans hafter
    simp [strands, hcall, hemptied] at hstrands

theorem Live.step (h : Live s) (hwired : s.Wired) (hst : Step s a s') (hturn : Turn s a s')
    (hstrands : s.strands a = false) : Live s' := by
  intro view hview
  cases hturn with
  | kept heventual hslot =>
    have hbefore : s.eventual = some view := heventual ▸ hview
    rcases h view hbefore with hlive | hclosing
    · exact .inl (hslot ▸ hlive)
    · exact .inr (hclosing.keep hwired hst hbefore hview hstrands)
  | followed heventual => exact .inl (heventual ▸ hview)
  | emptied _ hpast =>
    obtain ⟨hbefore, hclosed⟩ := hpast hview
    rcases h view hbefore with hlive | hclosing
    · exact .inr (hclosed hlive)
    · exact .inr (hclosing.keep hwired hst hbefore hview hstrands)
  | cleared _ _ _ hdesk heventual =>
    have hbefore := (showAfter_of_none (heventual ▸ hview) s.shown).1
    rcases h view hbefore with hlive | hclosing
    · exact .inl (hdesk ▸ hlive)
    · exact .inr (hclosing.keep hwired hst hbefore hview hstrands)

/-! ## Runs -/

/-- `start()` runs before anything else happens. -/
def startUpRun : List Action := [.connect, .fetch, .complete]

/-- An offer reaches the dialog. -/
def arriveRun (h : HandlerId) : List Action :=
  [.desk (.connect h ⟨1⟩ Offer.sampleOffer), .desk (.enqueue h), .desk (.recv []), .desk .store,
    .desk .emitIncoming, .desk .enterWait, .deliver]

/-- Answer `k` declines offer `id`, up to the return of its call. -/
def declineRun (k : CallId) (id : Nat) : List Action :=
  [.answer k false, .desk (.respond k id false none openDirectories), .desk (.take k),
    .desk (.send k), .desk (.notify k)]

/-- The first offer is declined, and its response comes before the second offer. -/
def promptRun : List Action :=
  startUpRun ++ arriveRun 0 ++ declineRun 0 1 ++ [.respond 0, .desk .wake] ++ arriveRun 1

/-! ## Nothing else breaks it -/

/-- A step that forgets an offer breaks the bond to the slot. -/
theorem not_kept_of_forgets (hwired : s.Wired) (hst : Step s a s') (hforgets : s.forgets a = true) :
    ¬ Kept s' := by
  intro hafter
  cases a with
  | respond k =>
    simp only [forgets] at hforgets
    split at hforgets
    · rename_i p hok hp
      obtain ⟨-, hdesk, heventual⟩ := cleared hwired hst hok
      have hshown : showAfter s.upcoming none = some p.view :=
        heventual.symm.trans (hafter p (hdesk ▸ hp))
      simp [announces_of_mem (showAfter_of_none hshown none).2] at hforgets
    · cases hforgets
  | _ => cases hforgets

/-- A step that strands an offer breaks the bond to the page. -/
theorem not_live_of_strands (hnumbered : s.desk.Numbered) (honce : s.desk.RemovedOnce)
    (hwired : s.Wired) (hst : Step s a s') (hstrands : s.strands a = true) : ¬ Live s' := by
  intro hafter
  cases a with
  | desk a =>
    cases hst with
    | @desk _ desk hinvokes hdesk =>
      obtain ⟨view, hview, hfailing⟩ : ∃ view, s.eventual = some view ∧
          s.desk.failing view.id a = true := by
        simp only [strands] at hstrands
        split at hstrands
        · exact ⟨_, ‹_›, hstrands⟩
        · cases hstrands
      have hstep := Desk.step_spec hdesk
      obtain ⟨hemitted, hforwarder, hpending, c, hremoved, hfailed⟩ :=
        Desk.failing_step hstep hfailing
      have hsame : eventual { s with
          desk
          events := if s.page.startUp = .connecting then s.events
            else s.events ++ emitted s.desk a } = s.eventual := by
        simp [eventual, upcoming, shown, hemitted, hforwarder, hpending]
      rcases hafter view (hsame.trans hview) with hslot | hclosing
      · obtain ⟨p, hp, rfl⟩ := Option.map_eq_some_iff.mp hslot
        exact ((hnumbered.step hstep).removed hremoved).2 hp rfl
      · obtain ⟨k, offer, accept, downloadDir, -, hsucceeding⟩ := hclosing
        -- only the failed call has taken this offer, so no other can close it
        obtain rfl := honce.step hnumbered hstep k c _
          (Call.removed_of_succeeding hsucceeding) hremoved
        cases hfailed.symm.trans hsucceeding
  | respond k =>
    simp only [strands] at hstrands
    split at hstrands
    · rename_i id hcall
      have hremoved : (s.desk.calls k).removed = some id := by rw [hcall]; rfl
      obtain ⟨-, hdesk, heventual⟩ := cleared hwired hst (by simp [hcall, Call.result])
      obtain ⟨view, hview, rfl⟩ : ∃ view, showAfter s.upcoming none = some view ∧ view.id = id := by
        simpa using hstrands
      rcases hafter view (heventual.trans hview) with hslot | hclosing
      · obtain ⟨p, hp, rfl⟩ := Option.map_eq_some_iff.mp hslot
        exact (hnumbered.removed hremoved).2 (hdesk ▸ hp) rfl
      · obtain ⟨k', offer, accept, downloadDir, hanswer, hsucceeding⟩ := hclosing
        rw [hdesk] at hsucceeding
        obtain rfl := honce k' k _ (Call.removed_of_succeeding hsucceeding) hremoved
        cases hst with
        | respond _ _ => simp at hanswer
    · cases hstrands
  | _ => cases hstrands

/-! ## Quiescent states -/

theorem kept (hs : machine.ReachableBy Keeps s) : Kept s := by
  refine hs.invariant (I := Kept) ?_ ?_
  · rintro _ ⟨mobile, rfl⟩
    exact nofun
  · intro s a s' hr h hc hst
    have hwired := wired (fun _ _ hc => hc.1) hr
    exact h.step (turn (Desk.numbered (desk_reachable hr)) hwired hc.1 (step_spec hst)) hc.2

theorem live (hs : machine.ReachableBy Closes s) : Live s := by
  refine hs.invariant (I := Live) ?_ ?_
  · rintro _ ⟨mobile, rfl⟩
    exact nofun
  · intro s a s' hr h hc hst
    have hwired := wired (fun _ _ hc => hc.1) hr
    have hturn := turn (Desk.numbered (desk_reachable hr)) hwired hc.1 (step_spec hst)
    exact h.step hwired (step_spec hst) hturn hc.2

/-- **The bond to the slot breaks at the steps that forget an offer, and at no other.** -/
theorem kept_step_iff (hs : machine.ReachableBy Keeps s) (hearly : s.early a = false)
    (hst : machine.step s a = some s') : Kept s' ↔ s.forgets a = false := by
  have hwired := wired (fun _ _ hc => hc.1) hs
  have hturn := turn (Desk.numbered (desk_reachable hs)) hwired hearly (step_spec hst)
  refine ⟨fun hafter => ?_, (kept hs).step hturn⟩
  cases hforgets : s.forgets a with
  | false => rfl
  | true => exact absurd hafter (not_kept_of_forgets hwired (step_spec hst) hforgets)

/-- **The bond to the page breaks at the steps that strand an offer, and at no other.** -/
theorem live_step_iff (hs : machine.ReachableBy Closes s) (hearly : s.early a = false)
    (hst : machine.step s a = some s') : Live s' ↔ s.strands a = false := by
  have hdesk := desk_reachable hs
  have hwired := wired (fun _ _ hc => hc.1) hs
  have hturn := turn (Desk.numbered hdesk) hwired hearly (step_spec hst)
  refine ⟨fun hafter => ?_, (live hs).step hwired (step_spec hst) hturn⟩
  cases hstrands : s.strands a with
  | false => rfl
  | true =>
    exact absurd hafter (not_live_of_strands (Desk.numbered hdesk) (Desk.removedOnce hdesk) hwired
      (step_spec hst) hstrands)

theorem Quiescent.eventual (h : s.Quiescent) : s.eventual = s.page.incomingOffer := by
  simp [Interface.eventual, upcoming, shown, h.completed, h.events, h.due, showAfter]

/-- **No offer is lost.**  In every run after `start()` in which no successful response is
processed while the page already shows the next offer: whenever everything is delivered
and no answer is suspended, the offer in the slot is in the open dialog. -/
theorem pending_shown (hs : machine.ReachableBy Keeps s) (hquiet : s.Quiescent)
    {p : PendingOffer} (hp : s.desk.pending = some p) :
    s.page.incomingOffer = some p.view ∧ s.page.dialogOpen = true := by
  have hshown : s.page.incomingOffer = some p.view := by
    rw [← hquiet.eventual]
    exact kept hs p hp
  have hdialog := (wired (fun _ _ hc => hc.1) hs).dialog
  exact ⟨hshown, by rw [hdialog, hshown]; rfl⟩

theorem pending_shown_promptRun : ∃ s p, machine.exec (start false) promptRun = some s ∧
    s.desk.pending = some p ∧ p.view.id = 2 ∧ s.page.incomingOffer = some p.view ∧
    s.page.dialogOpen = true := by
  have hstart : machine.ReachableBy Keeps (start false) := .init ⟨false, rfl⟩
  have hmeets : machine.Meets Keeps (start false) promptRun := by decide
  have hshown := pending_shown (hstart.exec hmeets rfl)
    ⟨rfl, rfl, rfl, fun | 0 => rfl | _ + 1 => rfl⟩ rfl
  exact ⟨_, _, rfl, rfl, rfl, hshown⟩

/-- The same, but the second offer overtakes the response to the first. -/
def overtakingRun : List Action :=
  startUpRun ++ arriveRun 0 ++ declineRun 0 1 ++ [.desk .wake] ++ arriveRun 1 ++ [.respond 0]

/-- The response to the first offer takes the second one off the page. -/
theorem overtakingRun_loses_offer : ∃ s p,
    machine.ReachableBy (fun s a => s.early a = false) s ∧ s.Quiescent ∧
    s.desk.pending = some p ∧ p.view.id = 2 ∧ s.page.incomingOffer = none ∧
    s.page.dialogOpen = false := by
  have hstart : machine.ReachableBy (fun s a => s.early a = false) (start false) :=
    .init ⟨false, rfl⟩
  have hmeets : machine.Meets (fun s a => s.early a = false) (start false) overtakingRun := by
    decide
  exact ⟨_, _, hstart.exec hmeets rfl,
    ⟨rfl, rfl, rfl, fun | 0 => rfl | _ + 1 => rfl⟩, rfl, rfl, rfl,
    rfl⟩

/-- **No dialog is dead.**  In every run after `start()` in which no call finds the handler
of the offer on the page gone and no response overtakes the announcement of its own offer:
whenever everything is delivered and no answer is suspended, an open dialog shows the offer
in the slot, and an offer that a call has taken is not shown. -/
theorem dialog_live (hs : machine.ReachableBy Closes s) (hquiet : s.Quiescent) :
    (s.page.dialogOpen = true → ∃ view p, s.page.incomingOffer = some view ∧
      s.desk.pending = some p ∧ p.view.id = view.id) ∧
    ∀ c id, (s.desk.calls c).removed = some id →
      s.page.incomingOffer.map IncomingOffer.id ≠ some id := by
  have hlive : ∀ {view}, s.page.incomingOffer = some view →
      ∃ p, s.desk.pending = some p ∧ p.view = view := by
    intro view hview
    rcases live hs view (hquiet.eventual.trans hview) with hslot | hclosing
    · exact Option.map_eq_some_iff.mp hslot
    · obtain ⟨k, offer, accept, downloadDir, hanswer, -⟩ := hclosing
      have hsuspended := hquiet.answers k
      simp [hanswer, Answer.suspended] at hsuspended
  refine ⟨fun hopen => ?_, fun c id hremoved hid => ?_⟩
  · rw [(wired (fun _ _ hc => hc.1) hs).dialog] at hopen
    obtain ⟨view, hview⟩ := Option.isSome_iff_exists.mp hopen
    obtain ⟨p, hp, rfl⟩ := hlive hview
    exact ⟨_, p, hview, hp, rfl⟩
  · obtain ⟨view, hview, rfl⟩ := Option.map_eq_some_iff.mp hid
    obtain ⟨p, hp, rfl⟩ := hlive hview
    exact ((Desk.numbered (desk_reachable hs)).removed hremoved).2 hp rfl

theorem dialog_live_promptRun : ∃ s view p, machine.exec (start false) promptRun = some s ∧
    s.page.incomingOffer = some view ∧ s.desk.pending = some p ∧ p.view.id = view.id ∧
    s.page.incomingOffer.map IncomingOffer.id ≠ some 1 := by
  have hstart : machine.ReachableBy Closes (start false) := .init ⟨false, rfl⟩
  have hmeets : machine.Meets Closes (start false) promptRun := by decide
  obtain ⟨hopen, hclosed⟩ := dialog_live (hstart.exec hmeets rfl)
    ⟨rfl, rfl, rfl, fun | 0 => rfl | _ + 1 => rfl⟩
  obtain ⟨view, p, hview, hp, hid⟩ := hopen rfl
  exact ⟨_, view, p, rfl, hview, hp, hid, hclosed 0 1 rfl⟩

/-- The handler of the offer gives up just before the offer is declined. -/
def abandonedRun : List Action :=
  startUpRun ++ arriveRun 0 ++ [.desk (.elapse 0), .desk (.dropReceiver 0)] ++ declineRun 0 1 ++
    [.respond 0, .desk .wake]

/-- The call has taken the offer, and the dialog stays open on it. -/
theorem abandonedRun_leaves_dialog : ∃ s view,
    machine.ReachableBy (fun s a => s.early a = false) s ∧ s.Quiescent ∧
    s.page.dialogOpen = true ∧ s.page.incomingOffer = some view ∧ s.desk.pending = none ∧
    (s.desk.calls 0).removed = some view.id ∧ s.page.offerError = "The sender stopped waiting" := by
  have hstart : machine.ReachableBy (fun s a => s.early a = false) (start false) :=
    .init ⟨false, rfl⟩
  have hmeets : machine.Meets (fun s a => s.early a = false) (start false) abandonedRun := by
    decide
  exact ⟨_, _, hstart.exec hmeets rfl,
    ⟨rfl, rfl, rfl, fun | 0 => rfl | _ + 1 => rfl⟩, rfl, rfl, rfl,
    rfl, rfl⟩

end Interface

end IrohShare
