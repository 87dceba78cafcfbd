import IrohShare.SendOwn
import IrohShare.SendStaging

/-!
# What the screen says of a send

The page draws nothing by itself: whoever writes to `state` calls `render`, in the same
turn.  There is one exception.  When a call of `sendSelected` ends, its result is written to
the record that `state.transfer` refers to, or the `catch` makes one; but the `render` of its
`finally` comes behind `await fs.remove`, when the call has a directory to remove.

So the record drawn may be older than the record there is.  The window has then passed a
state (`Passed`) that the screen was made of, and `Since` says what has happened to it: the
calls that have ended since, in order, each with its result, give the present record when
they are written over the one of that state (`overwritten`), and each of them still waits
for its directory.  With no such call the screen is what `render` makes of the present
state.  One is the rule; there can be more, since the guard of `sendSelected` lets a second
call pass while the first is in `materializeFile`.

A transfer that is drawn as it was is over, so what a click on the screen meets is always
what the screen says: the list is the present one, the button of a transfer that is over
belongs to one that is over, and the arrow is disabled for one that is sending or shown as
if it were.
-/
namespace IrohShare
open Transition

namespace SendPage
variable {typeError : String → String} {s s' : SendPage} {a : Action}

/-- `state.transfer` refers to a record. -/
def Refers (s : SendPage) : Prop := ∀ r, s.transfer = some r → (s.records r).isSome = true

/-- `state.transfer` refers to a record that is not sending. -/
def Over (s : SendPage) : Prop :=
  ∃ record, s.transfer.bind s.records = some record ∧ record.status ≠ .sending

theorem refers_create (r : RecordId) (record : SendRecord) : (s.create r record).Refers := by
  rintro _ ⟨⟩
  simp [create]

theorem Refers.modify (h : s.Refers) (r : RecordId) (f : SendRecord → SendRecord) :
    (s.modify r f).Refers := by
  intro r' hr'
  have hsome := h r' hr'
  by_cases heq : r' = r
  · subst heq
    simpa [SendPage.modify] using hsome
  · simpa [SendPage.modify, heq] using hsome

theorem Refers.catchError (h : s.Refers) (k : Nat) (error : String) :
    (s.catchError k error).Refers := by
  unfold SendPage.catchError
  dsimp only
  split
  · exact h.modify _ _
  · exact refers_create _ _

theorem Refers.listen (h : s.Refers) (payload : SendPayload) : (s.listen payload).Refers := by
  unfold SendPage.listen
  split
  · exact h
  · split
    · exact h.modify _ _
    · split
      · exact h.modify _ _
      · exact h

theorem Refers.materialized (h : s.Refers) (k : Nat) (selected : Except String String) :
    (materialized typeError s k selected).Refers := by
  unfold SendPage.materialized
  split
  · dsimp only
    split
    · exact refers_create _ _
    · exact (refers_create _ _).catchError k _
  · exact h.catchError k _

theorem Refers.settled (h : s.Refers) (k : Nat) (result : Except String SendOutcome) :
    (settled typeError s k result).Refers := by
  unfold SendPage.settled
  split
  · split
    · exact h.modify _ _
    · exact h.catchError k _
  · exact h.catchError k _

/-- No step lets `state.transfer` refer to a record that is not there. -/
theorem Refers.step (h : s.Refers) (hst : Step typeError s a s') : s'.Refers := by
  cases hst with
  | call | process => exact h
  | materialize => exact h.materialized _ _
  | settle => exact h.settled _ _
  | @deliver event events =>
    have hevents : Refers { s with events } := h
    exact hevents.listen event.payload
  | page htransfer _ =>
    intro r hr
    rcases htransfer with rfl | rfl
    · exact h r hr
    · cases hr

/-- `state.transfer` is `null` or one of the records, in every run. -/
theorem reachable_refers (hs : (machine typeError).Reachable s) : s.Refers := by
  refine hs.invariant (I := Refers) ?_ (fun s a s' _ h _ hst => h.step (step_spec hst))
  rintro s rfl
  nofun

/-! ### What the end of a call writes -/

/-- The record that `state.transfer` refers to. -/
def current (s : SendPage) : Option SendRecord := s.transfer.bind s.records

/-- What the end of a call makes of the record that is there, or of none: the outcome goes
into a record that there is, and where there is none the `catch` makes one, for the error of
the call or for that of writing to `null`. -/
def written (typeError : String → String) (transfer : Option SendRecord)
    (result : Except String SendOutcome) : SendRecord :=
  match transfer, result with
  | some record, .ok outcome => { record with status := outcome.status }
  | some record, .error error => { record with status := .failed, error := some error }
  | none, .ok _ =>
    { status := .failed, filename := "Selected file", error := some (typeError "status") }
  | none, .error error => { status := .failed, filename := "Selected file", error := some error }

/-- A transfer that has been written to at the end of a call is over. -/
theorem written_status (transfer : Option SendRecord) (result : Except String SendOutcome) :
    (written typeError transfer result).status ≠ .sending := by
  unfold written
  split
  · rename_i outcome
    cases outcome <;> nofun
  all_goals nofun

variable (typeError) in
/-- The `catch` marks the record that is there, or makes one. -/
theorem Refers.current_catchError (h : s.Refers) (k : Nat) (error : String) :
    (s.catchError k error).current = some (written typeError s.current (.error error)) := by
  unfold SendPage.catchError current
  dsimp only
  cases htransfer : s.transfer with
  | none => simp [create, written]
  | some r =>
    obtain ⟨record, hrecord⟩ := Option.isSome_iff_exists.mp (h r htransfer)
    simp [SendPage.modify, htransfer, hrecord, written]

variable (typeError) in
theorem Refers.current_settled (h : s.Refers) (k : Nat) (result : Except String SendOutcome) :
    (SendPage.settled typeError s k result).current =
      some (written typeError s.current result) := by
  unfold SendPage.settled
  cases result with
  | error error => exact h.current_catchError typeError k error
  | ok outcome =>
    dsimp only
    cases htransfer : s.transfer with
    | none =>
      refine (h.current_catchError typeError k (typeError "status")).trans ?_
      simp [current, htransfer, written]
    | some r =>
      obtain ⟨record, hrecord⟩ := Option.isSome_iff_exists.mp (h r htransfer)
      simp [current, setCall, SendPage.modify, htransfer, hrecord, written]

/-- The `catch` leaves the reference to a record. -/
theorem catchError_transfer {r : RecordId} (h : s.transfer = some r) (k : Nat) (error : String) :
    (s.catchError k error).transfer = some r := by
  unfold SendPage.catchError
  simp only [h]
  exact h

theorem settled_transfer {r : RecordId} (h : s.transfer = some r) (k : Nat)
    (result : Except String SendOutcome) :
    (SendPage.settled typeError s k result).transfer = some r := by
  unfold SendPage.settled
  cases result with
  | error error => exact catchError_transfer h k error
  | ok outcome =>
    simp only [h]
    exact h

/-- A call that `materializeFile` has rejected ends in its `catch`. -/
theorem Refers.current_rejected (h : s.Refers) (k : Nat) (error : String) :
    (SendPage.materialized typeError s k (.error error)).current =
      some (written typeError s.current (.error error)) :=
  h.current_catchError typeError k error

/-- A call whose peer has gone marks the record it has just made. -/
theorem current_unaddressed (k : Nat) (filename : String) (hnone : s.selectedPeer = none) :
    (SendPage.materialized typeError s k (.ok filename)).current = some (written typeError
      (s.create ⟨k, false⟩ { status := .sending, filename }).current
      (.error (typeError "ticket"))) := by
  have hcreated :
      (s.create ⟨k, false⟩ { status := .sending, filename }).selectedPeer = none := hnone
  simp only [SendPage.materialized, hcreated]
  exact (refers_create _ _).current_catchError typeError k _

end SendPage

namespace SendWindow
variable {text : PeerText} {decode : String → Option EndpointAddr} {device : Device}
  {typeError : String → String} {before s s' : SendWindow} {a : Action}
  {transfer : Option SendRecord} {ended : List (Nat × Except String SendOutcome)}

/-! ## What has been written since -/

/-- The record `transfer` after the calls `ended` have ended, oldest first. -/
def overwritten (typeError : String → String) (transfer : Option SendRecord)
    (ended : List (Nat × Except String SendOutcome)) : Option SendRecord :=
  ended.foldl (fun transfer p => some (SendPage.written typeError transfer p.2)) transfer

/-- The result of the last call goes into what the others have left. -/
theorem overwritten_concat (p : Nat × Except String SendOutcome) :
    overwritten typeError transfer (ended ++ [p]) =
      some (SendPage.written typeError (overwritten typeError transfer ended) p.2) := by
  simp [overwritten, List.foldl_append]

variable (text decode device typeError) in
/-- The window was in the state `before` on its way to `s`: between two steps; or within the
step in which `materializeFile` gives call `k` its file, when that has just been shown. -/
inductive Passed (before : SendWindow) : SendWindow → Prop
  | here : (machine text decode device typeError).Reachable before → Passed before before
  | showing {s s' : SendWindow} {a : Action} {k : Nat} {filename : String} {staging : Staging} :
      (machine text decode device typeError).Reachable s → s.page.calls k = .materializing →
      s.step text decode device typeError a = some s' →
      s' = (s.setStaging k staging).materialized k (.ok filename)
        (SendPage.materialized typeError s.page k (.ok filename)) →
      before = (s.setStaging k staging).showing k filename → Passed before s'
  | step {s s' : SendWindow} {a : Action} : Passed before s →
      s.step text decode device typeError a = some s' → Passed before s'

/-- What has happened since `before` was drawn: the calls `ended` have ended, each with its
result, which is now in the record; and their directories are still being removed. -/
structure Since (typeError : String → String) (before s : SendWindow)
    (ended : List (Nat × Except String SendOutcome)) : Prop where
  shown : s.shown = some (renderView before.view)
  view : before.view = { s.view with transfer := before.view.transfer }
  refers : ∀ r, before.page.transfer = some r → s.page.transfer = some r
  written : s.view.transfer = overwritten typeError before.view.transfer ended
  stays : ∀ k result, before.page.calls k = .finished result → s.page.calls k = .finished result
  removing : ∀ p ∈ ended, (∀ result, before.page.calls p.1 ≠ .finished result) ∧
    s.staging p.1 = .removing ∧ s.page.calls p.1 = .finished p.2
  once : (ended.map Prod.fst).Nodup

/-- Nothing has happened since the state was drawn. -/
theorem Since.refl (hshown : s.shown = some (renderView s.view)) : Since typeError s s [] :=
  ⟨hshown, rfl, fun _ => id, rfl, fun _ _ => id, by simp, by simp⟩

/-- With no call that has ended since, the screen is what `render` makes of the state. -/
theorem Since.shown_eq (h : Since typeError before s []) :
    s.shown = some (renderView s.view) := by
  have htransfer : s.view.transfer = before.view.transfer := h.written
  rw [h.shown, h.view, ← htransfer]

/-- A transfer that is not drawn as it is is over. -/
theorem Since.over (h : Since typeError before s ended) (hne : ended ≠ []) : s.page.Over := by
  obtain rfl | ⟨front, p, rfl⟩ := List.eq_nil_or_concat ended
  · exact absurd rfl hne
  · rw [List.concat_eq_append] at h
    exact ⟨_, h.written.trans (overwritten_concat p), SendPage.written_status _ _⟩

/-- A step that changes nothing that is drawn, writes nothing to a record, and ends no
removal. -/
theorem Since.same (h : Since typeError before s ended) (hshown : s'.shown = s.shown)
    (hview : s'.view = s.view) (hrefers : s'.page.transfer = s.page.transfer)
    (hkeeps : ∀ k result, s.page.calls k = .finished result →
      s'.page.calls k = .finished result ∧ (s.staging k = .removing → s'.staging k = .removing)) :
    Since typeError before s' ended := by
  refine ⟨hshown.trans h.shown, ?_, fun r hr => hrefers.trans (h.refers r hr), ?_,
    fun k result hk => (hkeeps k result (h.stays k result hk)).1, fun p hp => ?_, h.once⟩
  · rw [hview]
    exact h.view
  · rw [hview]
    exact h.written
  · obtain ⟨hunfinished, hremoving, hfinished⟩ := h.removing p hp
    obtain ⟨hfinished', hremoving'⟩ := hkeeps p.1 p.2 hfinished
    exact ⟨hunfinished, hremoving' hremoving, hfinished'⟩

/-- A call ends, and its directory is being removed. -/
theorem Since.ends (h : Since typeError before s ended) {page : SendPage} {k : Nat}
    {result : Except String SendOutcome}
    (hcall : ∀ result, s.page.calls k ≠ .finished result)
    (hpeer : page.selectedPeer = s.page.selectedPeer)
    (hrefers : ∀ r, s.page.transfer = some r → page.transfer = some r)
    (hcalls : page.calls = Function.update s.page.calls k (.finished result))
    (hcurrent : page.current = some (SendPage.written typeError s.page.current result)) :
    Since typeError before ({ s with page }.setStaging k .removing)
      (ended ++ [(k, result)]) := by
  have hother : ∀ j result, s.page.calls j = .finished result → j ≠ k := by
    rintro j result hj rfl
    exact hcall _ hj
  have hfinished : ∀ j result, s.page.calls j = .finished result →
      page.calls j = .finished result := by
    intro j result hj
    rw [hcalls, Function.update_of_ne (hother j result hj)]
    exact hj
  refine ⟨h.shown, h.view.trans ?_, fun r hr => hrefers r (h.refers r hr), ?_,
    fun j result hj => hfinished j result (h.stays j result hj), fun p hp => ?_, ?_⟩
  · simp only [SendWindow.view, setStaging, hpeer]
  · rw [overwritten_concat, ← h.written]
    exact hcurrent
  · rcases List.mem_append.mp hp with hp | hp
    · obtain ⟨hunfinished, hremoving, hp'⟩ := h.removing p hp
      exact ⟨hunfinished, (Function.update_of_ne (hother _ _ hp') ..).trans hremoving,
        hfinished _ _ hp'⟩
    · obtain rfl := List.mem_singleton.mp hp
      exact ⟨fun _ hk => hcall _ (h.stays _ _ hk), Function.update_self ..,
        (congrFun hcalls k).trans (Function.update_self ..)⟩
  · rw [List.map_append, List.nodup_append]
    refine ⟨h.once, by simp, ?_⟩
    rintro _ hj _ hk rfl
    obtain ⟨p, hp, rfl⟩ := List.mem_map.mp hj
    exact hother _ _ (h.removing p hp).2.2 (by simpa using hk)

/-! ## What is drawn -/

variable (text decode device typeError) in
/-- What is on the screen: nothing yet; or what `render` made of a state that the window has
passed, of which only calls that have ended since have changed anything. -/
inductive Shown (s : SendWindow) : Prop
  | blank : s.shown = none → s.receive = none → s.page.selectedPeer = none →
      s.page.transfer = none → (∀ k, s.page.calls k = .none ∨ s.page.calls k = .returned) →
      Shown s
  | drawn (before : SendWindow) (ended : List (Nat × Except String SendOutcome)) :
      Passed text decode device typeError before s → Since typeError before s ended → Shown s

/-- `render` draws the state as it is. -/
theorem shown_render (hs : (machine text decode device typeError).Reachable s.render) :
    Shown text decode device typeError s.render :=
  .drawn s.render [] (.here hs) (.refl rfl)

/-- A step that changes nothing that is drawn, and ends no removal. -/
theorem Shown.same (h : Shown text decode device typeError s)
    (hst : s.step text decode device typeError a = some s') (hshown : s'.shown = s.shown)
    (hview : s'.view = s.view)
    (hpage : s'.page.selectedPeer = s.page.selectedPeer ∧ s'.page.transfer = s.page.transfer)
    (hcalls : ∀ k, s.page.selectedPeer = none →
      s.page.calls k = .none ∨ s.page.calls k = .returned →
      s'.page.calls k = .none ∨ s'.page.calls k = .returned)
    (hkeeps : ∀ k result, s.page.calls k = .finished result →
      s'.page.calls k = .finished result ∧ (s.staging k = .removing → s'.staging k = .removing)) :
    Shown text decode device typeError s' := by
  obtain ⟨hpeer, htransfer⟩ := hpage
  rcases h with ⟨hnone, hreceive, hselected, hrefers, hidle⟩ | ⟨before, ended, hpassed, hsince⟩
  · exact .blank (hshown.trans hnone) ((congrArg View.receive hview).trans hreceive)
      (hpeer.trans hselected) (htransfer.trans hrefers) (fun k => hcalls k hselected (hidle k))
  · exact .drawn before ended (hpassed.step hst) (hsince.same hshown hview htransfer hkeeps)

/-- The `finally` of a call that has just ended on another page with the same peer. -/
theorem shown_cleanUp {page : SendPage} {k : Nat} {result : Except String SendOutcome}
    (hs' : (machine text decode device typeError).Reachable ({ s with page }.cleanUp k))
    (hpassed : Passed text decode device typeError before ({ s with page }.cleanUp k))
    (hsince : Since typeError before s ended)
    (hcall : ∀ result, s.page.calls k ≠ .finished result)
    (hpeer : page.selectedPeer = s.page.selectedPeer)
    (hrefers : ∀ r, s.page.transfer = some r → page.transfer = some r)
    (hcalls : page.calls = Function.update s.page.calls k (.finished result))
    (hcurrent : page.current = some (SendPage.written typeError s.page.current result)) :
    Shown text decode device typeError ({ s with page }.cleanUp k) := by
  obtain ⟨-, heq⟩ | ⟨-, heq⟩ := cleanUp_cases { s with page } k <;> rw [heq] at hs' hpassed ⊢
  · exact .drawn before _ hpassed (hsince.ends hcall hpeer hrefers hcalls hcurrent)
  · exact shown_render hs'

/-- Something has been drawn when a call is behind the guard. -/
theorem Shown.drawn_of_call (h : Shown text decode device typeError s) {k : Nat}
    (hcall : s.page.calls k = .materializing ∨ s.page.calls k = .sending) :
    ∃ before ended, Passed text decode device typeError before s ∧
      Since typeError before s ended := by
  rcases h with ⟨-, -, -, -, hidle⟩ | ⟨before, ended, hpassed, hsince⟩
  · rcases hidle k with hidle | hidle <;> rw [hidle] at hcall <;>
      rcases hcall with hcall | hcall <;> cases hcall
  · exact ⟨before, ended, hpassed, hsince⟩

theorem unfinished_of_materializing {k : Nat} (hcall : s.page.calls k = .materializing)
    (result : Except String SendOutcome) : s.page.calls k ≠ .finished result := by
  intro hfinished
  rw [hcall] at hfinished
  cases hfinished

/-- `materializeFile` rejects the file of a call, and that is over. -/
theorem Shown.rejected (h : Shown text decode device typeError s)
    (hs : (machine text decode device typeError).Reachable s) {k : Nat} {error : String}
    {staging : Staging} (hcall : s.page.calls k = .materializing)
    (hst : s.step text decode device typeError a = some ((s.setStaging k staging).materialized k
      (.error error) (SendPage.materialized typeError s.page k (.error error)))) :
    Shown text decode device typeError ((s.setStaging k staging).materialized k (.error error)
      (SendPage.materialized typeError s.page k (.error error))) := by
  obtain ⟨before, ended, hpassed, hsince⟩ := h.drawn_of_call (.inl hcall)
  have hrefers := SendPage.reachable_refers (reachable_page hs)
  have hunfinished := unfinished_of_materializing hcall
  have hstaged : Since typeError before (s.setStaging k staging) ended := by
    refine hsince.same rfl rfl rfl (fun j result hj => ⟨hj, fun hremoving => ?_⟩)
    have hne : j ≠ k := by
      rintro rfl
      exact hunfinished _ hj
    exact (Function.update_of_ne hne ..).trans hremoving
  refine shown_cleanUp (s := s.setStaging k staging) (.step hs trivial hst) (hpassed.step hst)
    hstaged hunfinished (SendPage.catchError_selectedPeer k error)
    (fun r hr => SendPage.catchError_transfer hr k error) ?_ (hrefers.current_rejected k error)
  exact congrArg (Function.update · k _) (SendPage.catchError_executions k error).2.2

/-- The file of a call is shown, and sent to the selected peer. -/
theorem shown_sent {k : Nat} {filename : String} {staging : Staging} {peer : SelectedPeer}
    (hs' : (machine text decode device typeError).Reachable ((s.setStaging k staging).materialized
      k (.ok filename) (SendPage.materialized typeError s.page k (.ok filename))))
    (hselected : s.page.selectedPeer = some peer) :
    Shown text decode device typeError ((s.setStaging k staging).materialized k (.ok filename)
      (SendPage.materialized typeError s.page k (.ok filename))) := by
  have hpage : SendPage.materialized typeError s.page k (.ok filename) =
      ((s.page.create ⟨k, false⟩ { status := .sending, filename }).setCall k
        .sending).setExecution k .invoked := by
    simp only [SendPage.materialized, SendPage.create, hselected]
  have hsent : (SendPage.materialized typeError s.page k (.ok filename)).calls k = .sending := by
    rw [hpage]
    exact SendPage.setCall_self ..
  have hpeer : (SendPage.materialized typeError s.page k (.ok filename)).selectedPeer =
      some peer := by
    rw [hpage]
    exact hselected
  refine .drawn _ [] (.here hs') (.refl ?_)
  rw [materialized_sent hsent hpeer, hpage]
  rfl

/-- The file of a call is shown, and the call is over since its peer has gone: the record has
been drawn before the peer is looked for. -/
theorem shown_unaddressed (hs : (machine text decode device typeError).Reachable s) {k : Nat}
    {filename : String} {staging : Staging} (hcall : s.page.calls k = .materializing)
    (hst : s.step text decode device typeError a = some ((s.setStaging k staging).materialized k
      (.ok filename) (SendPage.materialized typeError s.page k (.ok filename))))
    (hselected : s.page.selectedPeer = none) :
    Shown text decode device typeError ((s.setStaging k staging).materialized k (.ok filename)
      (SendPage.materialized typeError s.page k (.ok filename))) := by
  have hs' : (machine text decode device typeError).Reachable _ := .step hs trivial hst
  have hpassed := Passed.showing hs hcall hst rfl rfl
  have hcreated : (s.page.create ⟨k, false⟩ { status := .sending, filename }).selectedPeer =
      none := hselected
  have hpage : SendPage.materialized typeError s.page k (.ok filename) =
      ((s.page.create ⟨k, false⟩ { status := .sending, filename }).catchError k
        (typeError "ticket")).setCall k (.finished (.error (typeError "ticket"))) := by
    simp only [SendPage.materialized, hcreated]
  have hended : (SendPage.materialized typeError s.page k (.ok filename)).calls k ≠ .sending := by
    rw [hpage, SendPage.setCall_self]
    exact SendPage.finished_ne_sending _
  obtain ⟨⟨_, herror⟩, -⟩ | ⟨_, hok, heq⟩ :=
    materialized_over (s.setStaging k staging) (.ok filename) hended
  · cases herror
  · cases hok
    rw [heq] at hs' hpassed ⊢
    refine shown_cleanUp (s := (s.setStaging k staging).showing k filename) hs' hpassed
      (.refl rfl) (unfinished_of_materializing hcall) ?_ (fun r hr => ?_) ?_
      (SendPage.current_unaddressed k filename hselected)
    · rw [hpage]
      exact SendPage.catchError_selectedPeer k _
    · rw [hpage]
      exact SendPage.catchError_transfer hr k (typeError "ticket")
    · rw [hpage]
      exact congrArg (Function.update · k _) (SendPage.catchError_executions k _).2.2

/-- The end of `materializeFile`. -/
theorem Shown.materialize (h : Shown text decode device typeError s)
    (hs : (machine text decode device typeError).Reachable s) {k : Nat}
    {selected : Except String String} {staging : Staging}
    (hcall : s.page.calls k = .materializing)
    (hst : s.step text decode device typeError a = some ((s.setStaging k staging).materialized k
      selected (SendPage.materialized typeError s.page k selected))) :
    Shown text decode device typeError ((s.setStaging k staging).materialized k selected
      (SendPage.materialized typeError s.page k selected)) := by
  cases selected with
  | error error => exact h.rejected hs hcall hst
  | ok filename =>
    cases hselected : s.page.selectedPeer with
    | some peer => exact shown_sent (.step hs trivial hst) hselected
    | none => exact shown_unaddressed hs hcall hst hselected

/-- **A step of the window** renders, or leaves what is drawn as it is, or is the end of a call
that has a directory to remove. -/
theorem Shown.step (h : Shown text decode device typeError s)
    (hs : (machine text decode device typeError).Reachable s)
    (hst : s.step text decode device typeError a = some s') :
    Shown text decode device typeError s' := by
  have hs' : (machine text decode device typeError).Reachable s' := .step hs trivial hst
  have hkept : ∀ k result, s.page.calls k = .finished result →
      s.page.calls k = .finished result ∧ (s.staging k = .removing → s.staging k = .removing) :=
    fun _ _ hfinished => ⟨hfinished, id⟩
  cases step_spec hst with
  | start | deliverPeers | select | useTicket | leave | removed | deliver | receive =>
    exact shown_render hs'
  | watch | listen | readPeers | idle =>
    exact h.same hst rfl rfl ⟨rfl, rfl⟩ (fun _ _ => id) hkept
  | @choose k path call hnone hcall =>
    have hother : ∀ j, j ≠ k → (s.page.setCall k call).calls j = s.page.calls j :=
      fun j hj => SendPage.setCall_of_ne hj _
    refine h.same hst rfl rfl ⟨rfl, rfl⟩ (fun j hselected hj => ?_)
      (fun j result hj => ⟨?_, id⟩)
    · by_cases heq : j = k
      · subst heq
        rcases hcall with rfl | ⟨-, hsome⟩
        · exact .inr (SendPage.setCall_self ..)
        · rw [hselected] at hsome
          cases hsome
      · rw [hother j heq]
        exact hj
    · have hne : j ≠ k := by
        rintro rfl
        rw [hnone] at hj
        cases hj
      exact (hother j hne).trans hj
  | @mkdir k hcall hnone hstaged =>
    refine h.same hst rfl rfl ⟨rfl, rfl⟩ (fun _ _ => id)
      (fun j result hj => ⟨hj, fun hremoving => ?_⟩)
    have hne : j ≠ k := by
      rintro rfl
      rw [hnone] at hremoving
      cases hremoving
    exact (Function.update_of_ne hne ..).trans hremoving
  | process ha hpage =>
    obtain ⟨k, execution, execution', lock, events, -, rfl, -⟩ := SendPage.process_spec ha hpage
    exact h.same hst rfl rfl ⟨rfl, rfl⟩ (fun _ _ => id) hkept
  | materialize hcall => exact h.materialize hs hcall hst
  | @settle k result hcall =>
    obtain ⟨before, ended, hpassed, hsince⟩ := h.drawn_of_call (.inr hcall)
    obtain ⟨hpeer, -, result', hcalls⟩ := SendPage.settled_spec typeError s.page k result
    have hresult : (SendPage.settled typeError s.page k result).calls k = .finished result :=
      SendPage.settled_calls s.page k result
    rw [hcalls, Function.update_self] at hresult
    cases hresult
    have hrefers := SendPage.reachable_refers (reachable_page hs)
    refine shown_cleanUp hs' (hpassed.step hst) hsince (fun _ hfinished => ?_) hpeer
      (fun r hr => SendPage.settled_transfer hr k result) hcalls
      (hrefers.current_settled typeError k result)
    rw [hcall] at hfinished
    cases hfinished

/-- What is on the screen, in every run. -/
theorem reachable_shown (hs : (machine text decode device typeError).Reachable s) :
    Shown text decode device typeError s := by
  refine hs.invariant (I := Shown text decode device typeError) ?_
    (fun s a s' hs h _ hst => h.step hs hst)
  rintro s rfl
  exact .blank rfl rfl rfl rfl (fun _ => .inl rfl)

/-! ## What the screen offers -/

/-- The list is drawn only while no peer is selected, and it is the one of the state. -/
theorem renderView_peers {view : View} {peers : List Peer}
    (h : (renderView view).content = .peers peers) :
    view.selectedPeer = none ∧ view.peers = peers := by
  simp only [renderView] at h
  split at h
  · unfold renderReceive at h
    split at h <;> cases h
  · rename_i hnone
    unfold renderPeers at h
    split at h <;> cases h
    exact ⟨hnone, rfl⟩
  · cases h
  · unfold renderTransfer at h
    split at h <;> cases h

/-- The button is drawn only for a record that is not sending. -/
theorem renderView_ended {view : View} {kind title detail label : String}
    (h : (renderView view).content = .ended kind title detail label) :
    view.selectedPeer.isSome = true ∧
      ∃ record, view.transfer = some record ∧ record.status ≠ .sending := by
  simp only [renderView] at h
  split at h
  · unfold renderReceive at h
    split at h <;> cases h
  · unfold renderPeers at h
    split at h <;> cases h
  · cases h
  · rename_i record _ hselected htransfer
    refine ⟨by rw [hselected]; rfl, record, htransfer, fun hsending => ?_⟩
    rw [renderTransfer, hsending] at h
    cases h

/-- The arrow is disabled exactly as long as the record drawn is sending. -/
theorem setHeader_backDisabled (view : View) :
    (setHeader view).backDisabled =
      view.transfer.any (fun transfer => transfer.status = .sending) := by
  unfold setHeader
  split <;> rfl

theorem not_sending_of_over (hover : s.page.Over) : s.page.sending = false := by
  obtain ⟨record, hrecord, hstatus⟩ := hover
  simpa [SendPage.sending, hrecord] using hstatus

/-- The button behind a transfer is shown for one that is over. -/
theorem Shown.another (h : Shown text decode device typeError s)
    (hanother : s.offersAnother = true) :
    s.page.selectedPeer.isSome = true ∧ s.page.Over := by
  obtain ⟨screen, hscreen, hcontent⟩ := (Option.any_eq_true ..).mp hanother
  rcases h with ⟨hnone, -, -, -, -⟩ | ⟨before, ended, -, hsince⟩
  · rw [hnone] at hscreen
    cases hscreen
  · rw [hsince.shown] at hscreen
    cases hscreen
    split at hcontent
    · rename_i hshows
      obtain ⟨hselected, record, hrecord, hstatus⟩ := renderView_ended hshows
      rw [hsince.view] at hselected
      refine ⟨hselected, ?_⟩
      by_cases hnil : ended = []
      · subst hnil
        exact ⟨record, hsince.written.trans hrecord, hstatus⟩
      · exact hsince.over hnil
    · cases hcontent

theorem step_select {peer : Peer} (hoffers : s.offers peer = true)
    (hselected : s.page.selectedPeer = none) :
    s.step text decode device typeError (.select peer) = some { s with
      page := { s.page with
        selectedPeer := some { peer, manual := false }, transfer := none } }.render := by
  simp only [step, if_pos hoffers, SendPage.step, hselected, Option.isNone_none, if_true,
    Option.map_some]

theorem step_another (hanother : s.offersAnother = true)
    (hselected : s.page.selectedPeer.isSome = true) (hover : s.page.Over) :
    s.step text decode device typeError .another =
      some { s with page := { s.page with transfer := none } }.render := by
  have hsending := not_sending_of_over hover
  obtain ⟨record, hrecord, -⟩ := hover
  obtain ⟨r, htransfer, -⟩ := Option.bind_eq_some_iff.mp hrecord
  simp only [step, if_pos hanother, SendPage.step, hselected, htransfer, hsending,
    Option.isSome_some, Bool.and_self, Bool.not_false, if_true, Option.map_some]

theorem step_back (hsending : s.page.sending = false) :
    s.step text decode device typeError .back =
      some { s with page := { s.page with selectedPeer := none, transfer := none } }.render := by
  simp only [step, SendPage.step, hsending, Bool.false_eq_true, if_false, Option.map_some]

/-- **The screen is the state.**  Nothing is drawn as long as there is nothing to draw.
Later the screen is what `render` makes of the state at any time, but for a transfer that
has ended: that is shown as it was in a state the window has passed, before the results were
written to its record of calls that have ended since, each of which waits for its directory
to be removed.  Whatever is drawn then can be clicked: a peer is on the present list and
becomes the one that is sent to, the button of a transfer leads back to the picker, the
arrow to the list. -/
theorem screen_is_state (hs : (machine text decode device typeError).Reachable s) :
    (s.shown = none ∧ s.receive = none ∧ s.page.selectedPeer = none ∧ s.page.transfer = none ∨
      s.shown = some (renderView s.view) ∨
      ∃ before ended, Passed text decode device typeError before s ∧ ended ≠ [] ∧
        Since typeError before s ended) ∧
    (∀ peer, s.offers peer = true → peer ∈ s.peers ∧
      ∃ s', s.step text decode device typeError (.select peer) = some s' ∧
        s'.page.selectedPeer = some { peer, manual := false }) ∧
    (s.offersAnother = true →
      ∃ s', s.step text decode device typeError .another = some s' ∧
        s'.page.selectedPeer = s.page.selectedPeer ∧ s'.page.transfer = none) ∧
    ∀ screen, s.shown = some screen → screen.header.backDisabled = false →
      ∃ s', s.step text decode device typeError .back = some s' ∧
        s'.page.selectedPeer = none ∧ s'.page.transfer = none := by
  have hshown := reachable_shown hs
  refine ⟨?_, fun peer hoffers => ?_, fun hanother => ?_, fun screen hscreen hback => ?_⟩
  · rcases hshown with ⟨hnone, hreceive, hselected, htransfer, -⟩ |
      ⟨before, ended, hpassed, hsince⟩
    · exact .inl ⟨hnone, hreceive, hselected, htransfer⟩
    · by_cases hnil : ended = []
      · subst hnil
        exact .inr (.inl hsince.shown_eq)
      · exact .inr (.inr ⟨before, ended, hpassed, hnil, hsince⟩)
  · obtain ⟨screen, hscreen, hcontent⟩ := (Option.any_eq_true ..).mp hoffers
    rcases hshown with ⟨hnone, -, -, -, -⟩ | ⟨before, ended, -, hsince⟩
    · rw [hnone] at hscreen
      cases hscreen
    · rw [hsince.shown, hsince.view] at hscreen
      cases hscreen
      split at hcontent
      · rename_i peers hpeers
        obtain ⟨hselected, rfl⟩ := renderView_peers hpeers
        replace hselected : s.page.selectedPeer = none := hselected
        exact ⟨of_decide_eq_true hcontent, _, step_select hoffers hselected, rfl⟩
      · cases hcontent
  · obtain ⟨hselected, hover⟩ := hshown.another hanother
    exact ⟨_, step_another hanother hselected hover, rfl, rfl⟩
  · have hsending : s.page.sending = false := by
      rcases hshown with ⟨hnone, -, -, -, -⟩ | ⟨before, ended, -, hsince⟩
      · rw [hnone] at hscreen
        cases hscreen
      · by_cases hnil : ended = []
        · subst hnil
          rw [hsince.shown_eq] at hscreen
          cases hscreen
          exact (setHeader_backDisabled _).symm.trans hback
        · exact not_sending_of_over (hsince.over hnil)
    exact ⟨_, step_back hsending, rfl, rfl⟩

/-- A file is copied and sent; its directory is still being removed. -/
def removingRun : List Action :=
  [.useTicket "a", .choose 0 "content://x", .mkdir 0, .copied 0 "x", .process (.lock 0),
    .process (.fail 0 "no peer"), .settle 0]

/-- Until the directory is gone the screen says that the file is on its way, and the
transfer has failed; then there is a button. -/
theorem screen_is_state_removing :
    (∃ s before ended,
      (machine PeerWatch.sampleText sampleDecode ⟨"me", true⟩ id).exec {} removingRun = some s ∧
      s.shown ≠ some (renderView s.view) ∧
      Passed PeerWatch.sampleText sampleDecode ⟨"me", true⟩ id before s ∧ ended ≠ [] ∧
      Since id before s ended) ∧
    ∃ s s', (machine PeerWatch.sampleText sampleDecode ⟨"me", true⟩ id).exec {}
        (removingRun ++ [.removed 0 true]) = some s ∧ s.offersAnother = true ∧
      s.step PeerWatch.sampleText sampleDecode ⟨"me", true⟩ id .another = some s' ∧
      s'.page.transfer = none := by
  have hstart : (machine PeerWatch.sampleText sampleDecode ⟨"me", true⟩ id).Reachable {} :=
    .init rfl
  obtain ⟨s, hremoving, hsome, hstale⟩ :
      ∃ s,
        (machine PeerWatch.sampleText sampleDecode ⟨"me", true⟩ id).exec {} removingRun = some s ∧
        s.shown.isSome = true ∧ s.shown ≠ some (renderView s.view) := ⟨_, rfl, rfl, by decide⟩
  have hremoved : (machine PeerWatch.sampleText sampleDecode ⟨"me", true⟩ id).exec {}
    (removingRun ++ [.removed 0 true]) = some _ := rfl
  obtain ⟨-, -, hanother, -⟩ := screen_is_state (hstart.exec hremoved)
  obtain ⟨s', hst, -, hnone⟩ := hanother (by decide)
  refine ⟨?_, _, s', hremoved, by decide, hst, hnone⟩
  obtain ⟨hblank, -⟩ | hdrawn | ⟨before, ended, hpassed, hnil, hsince⟩ :=
    (screen_is_state (hstart.exec hremoving)).1
  · rw [hblank] at hsome
    cases hsome
  · exact absurd hdrawn hstale
  · exact ⟨s, before, ended, hremoving, hstale, hpassed, hnil, hsince⟩

end SendWindow
end IrohShare
