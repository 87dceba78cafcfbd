import IrohShare.SendWindow

/-!
# The copy of a file that is sent

On a phone the file that is chosen has no path, and `materializeFile` copies it into a
directory of its own under the temporary directory, which the `finally` of `sendSelected`
removes.  A path that needs no copy has no directory.

The window runs the page (`reachable_page`): each of its steps is one of the page, or leaves
the page alone.  Beside every call stands its directory, and `Fits` says which states of the
two go together.  A call is in `send_file` with its copy made, or with none where none is
needed; so the copy is there for as long as an execution of `send_file` runs, which the call
waits for.

When the call is over its directory goes, unless it cannot be removed.  Only a directory
whose copy has failed stays for good: `materializeFile` throws before it has returned the
name of the directory, `selected` is undefined in the `finally`, and nobody knows of it any
more.
-/
namespace IrohShare
open Transition

namespace SendPage
variable {typeError : String → String} {s s' : SendPage}

/-- Executions belong to calls past `materializeFile`, in every run of the page. -/
theorem reachable_invoked (hs : (machine typeError).Reachable s) : s.Invoked := by
  refine hs.invariant (I := Invoked) ?_ (fun s a s' _ h _ hst => (lockStep_spec h hst).2)
  rintro s rfl
  exact fun _ _ => rfl

end SendPage

namespace SendWindow
variable {text : PeerText} {decode : String → Option EndpointAddr} {device : Device}
  {typeError : String → String} {s s' : SendWindow} {a : Action}

/-! ## The page inside -/

/-- The `finally` of a call does not change the page. -/
theorem page_cleanUp (s : SendWindow) (k : Nat) : (s.cleanUp k).page = s.page := by
  obtain ⟨-, heq⟩ | ⟨-, heq⟩ := cleanUp_cases s k <;> rw [heq] <;> rfl

/-- What is drawn on the way to the invocation is not the page. -/
theorem page_materialized (s : SendWindow) (k : Nat) (selected : Except String String)
    (page : SendPage) : (s.materialized k selected page).page = page := by
  unfold materialized
  split
  · exact page_cleanUp _ k
  · dsimp only
    split
    · rfl
    · exact page_cleanUp _ k

/-- The step of the page that is behind one of the window. -/
inductive Under : Action → SendPage.Action → Prop
  | peers (payload : List Peer) : Under .deliverPeers (.peers payload)
  | select (peer : Peer) : Under (.select peer) (.select peer)
  | useTicket (ticket : String) (peer : Peer) : Under (.useTicket ticket) (.useTicket peer)
  | back : Under .back .back
  | another : Under .another .another
  | choose (k : Nat) (path : String) : Under (.choose k path) (.sendSelected k)
  | unstaged (k : Nat) (selected : Except String String) :
      Under (.unstaged k selected) (.materialize k selected)
  | copied (k : Nat) (filename : String) :
      Under (.copied k filename) (.materialize k (.ok filename))
  | copyFails (k : Nat) (error : String) :
      Under (.copyFails k error) (.materialize k (.error error))
  | settle (k : Nat) : Under (.settle k) (.settle k)
  | deliver : Under .deliver .deliver
  | process {b : SendPage.Action} : ofExecution b = true → Under (.process b) b

/-- A step of an execution is one of the page. -/
theorem process_step {b : SendPage.Action}
    (hst : s.step text decode device typeError (.process b) = some s') :
    ofExecution b = true ∧ ∃ page, s.page.step typeError b = some page ∧ s' = { s with page } := by
  simp only [step] at hst
  split at hst
  · split at hst
    · obtain ⟨page, hpage, rfl⟩ := Option.map_eq_some_iff.mp hst
      exact ⟨‹_›, page, hpage, rfl⟩
    · cases hst
  · obtain ⟨page, hpage, rfl⟩ := Option.map_eq_some_iff.mp hst
    exact ⟨‹_›, page, hpage, rfl⟩
  · cases hst

/-- A step of the window is one of the page, or leaves it alone. -/
theorem page_step (hst : s.step text decode device typeError a = some s') :
    s'.page = s.page ∨ ∃ b, Under a b ∧ s.page.step typeError b = some s'.page := by
  have hmaterialize : ∀ {t : SendWindow} {k : Nat} {selected : Except String String},
      t.materialize typeError k selected = some s' → t.page = s.page →
      s.page.step typeError (.materialize k selected) = some s'.page := by
    intro t k selected hst hsame
    obtain ⟨page, hpage, rfl⟩ := Option.map_eq_some_iff.mp hst
    rw [page_materialized, ← hsame]
    exact hpage
  cases a
  case process b =>
    obtain ⟨hb, page, hpage, rfl⟩ := process_step hst
    exact .inr ⟨b, .process hb, hpage⟩
  all_goals simp only [step] at hst
  case watch a =>
    obtain ⟨watch, -, rfl⟩ := Option.map_eq_some_iff.mp hst
    exact .inl rfl
  case listen | receive =>
    cases hst
    exact .inl rfl
  case readPeers | start | mkdir | removed =>
    split at hst <;> cases hst
    exact .inl rfl
  case deliverPeers =>
    split at hst <;> cases hst
    exact .inr ⟨_, .peers _, rfl⟩
  case select peer =>
    split at hst
    · obtain ⟨page, hpage, rfl⟩ := Option.map_eq_some_iff.mp hst
      exact .inr ⟨_, .select peer, hpage⟩
    · cases hst
  case another =>
    split at hst
    · obtain ⟨page, hpage, rfl⟩ := Option.map_eq_some_iff.mp hst
      exact .inr ⟨_, .another, hpage⟩
    · cases hst
  case useTicket ticket =>
    split at hst
    · obtain ⟨page, hpage, rfl⟩ := Option.map_eq_some_iff.mp hst
      exact .inr ⟨_, .useTicket ticket _, hpage⟩
    · cases hst
      exact .inl rfl
  case back =>
    obtain ⟨page, hpage, rfl⟩ := Option.map_eq_some_iff.mp hst
    refine .inr ⟨_, .back, hpage.trans ?_⟩
    split <;> rfl
  case choose k path =>
    obtain ⟨page, hpage, rfl⟩ := Option.map_eq_some_iff.mp hst
    exact .inr ⟨_, .choose k path, hpage⟩
  case deliver =>
    obtain ⟨page, hpage, rfl⟩ := Option.map_eq_some_iff.mp hst
    exact .inr ⟨_, .deliver, hpage⟩
  case unstaged k selected =>
    split at hst
    · exact .inr ⟨_, .unstaged k selected, hmaterialize hst rfl⟩
    · cases hst
  case copied k filename =>
    split at hst
    · exact .inr ⟨_, .copied k filename, hmaterialize hst rfl⟩
    · cases hst
  case copyFails k error =>
    split at hst
    · exact .inr ⟨_, .copyFails k error, hmaterialize hst rfl⟩
    · cases hst
  case settle k =>
    obtain ⟨page, hpage, rfl⟩ := Option.map_eq_some_iff.mp hst
    exact .inr ⟨_, .settle k, by rw [page_cleanUp]; exact hpage⟩

/-- **The window runs the page.** -/
theorem reachable_page (hs : (machine text decode device typeError).Reachable s) :
    (SendPage.machine typeError).Reachable s.page := by
  refine hs.invariant (I := fun s => (SendPage.machine typeError).Reachable s.page) ?_ ?_
  · rintro s rfl
    exact .init rfl
  · intro s a s' _ hpage _ hst
    rcases page_step hst with heq | ⟨b, -, hb⟩
    · rwa [heq]
    · exact .step hpage trivial hb

/-! ## The directory of a call -/

/-- The directory of a call, by where the call is. -/
inductive Fits (path : String) : SendCall → Staging → Prop
  | none : Fits path .none .none
  | returned : Fits path .returned .none
  | materializing : Fits path .materializing .none
  | made : staged path = true → Fits path .materializing .made
  | unstaged : staged path = false → Fits path .sending .none
  | copied : staged path = true → Fits path .sending .copied
  | nothing {result : Except String SendOutcome} : Fits path (.finished result) .none
  | ended {result : Except String SendOutcome} {staging : Staging} : staged path = true →
      staging = .removing ∨ staging = .removed ∨ staging = .left ∨ staging = .stranded →
      Fits path (.finished result) staging

/-- A call with its execution of `send_file`, which is waited for until it returns, and its
directory. -/
structure Fit (path : String) (call : SendCall) (execution : Option Execution) (staging : Staging) :
    Prop where
  fits : Fits path call staging
  running : ∀ e, execution = some e → e.result = none → call = .sending

/-- Every call has its path, its execution and its directory in step. -/
def Staged (s : SendWindow) : Prop :=
  ∀ k, Fit (s.paths k) (s.page.calls k) (s.page.executions k) (s.staging k)

/-- A step that leaves the calls and the directories alone. -/
theorem Staged.same (h : s.Staged) (hpaths : s'.paths = s.paths)
    (hcalls : s'.page.calls = s.page.calls) (hexecutions : s'.page.executions = s.page.executions)
    (hstaging : s'.staging = s.staging) : s'.Staged := by
  intro k
  rw [hpaths, hcalls, hexecutions, hstaging]
  exact h k

/-- A step that changes one call. -/
theorem Staged.update (h : s.Staged) {k : Nat} {path : String} {call : SendCall}
    {execution : Option Execution} {staging : Staging}
    (hpaths : s'.paths = Function.update s.paths k path)
    (hcalls : s'.page.calls = Function.update s.page.calls k call)
    (hexecutions : s'.page.executions = Function.update s.page.executions k execution)
    (hstaging : s'.staging = Function.update s.staging k staging)
    (hfit : Fit path call execution staging) : s'.Staged := by
  intro j
  rw [hpaths, hcalls, hexecutions, hstaging]
  by_cases heq : j = k
  · subst heq
    rwa [Function.update_self, Function.update_self, Function.update_self, Function.update_self]
  · rw [Function.update_of_ne heq, Function.update_of_ne heq, Function.update_of_ne heq,
      Function.update_of_ne heq]
    exact h j

/-- The directory of a call that has not begun to copy. -/
theorem Fit.staging_none {path : String} {call : SendCall} {execution : Option Execution}
    {staging : Staging} (h : Fit path call execution staging)
    (hcall : call = .none ∨ call = .returned) : staging = .none := by
  obtain ⟨hfits, -⟩ := h
  cases hfits <;> first | rfl | (rcases hcall with hcall | hcall <;> cases hcall)

/-- The `finally` of a call that has just ended. -/
theorem Staged.cleanUp (h : s.Staged) {t : SendWindow} {k : Nat} {staging : Staging}
    {result : Except String SendOutcome} (hpaths : t.paths = s.paths)
    (hcalls : t.page.calls = Function.update s.page.calls k (.finished result))
    (hexecutions : t.page.executions = s.page.executions)
    (hstaging : t.staging = Function.update s.staging k staging)
    (hover : ∀ e, s.page.executions k = some e → e.result ≠ none)
    (hends : staging = .none ∨
      staged (s.paths k) = true ∧ (staging = .copied ∨ staging = .stranded)) :
    (t.cleanUp k).Staged := by
  have hpaths' : t.paths = Function.update s.paths k (s.paths k) := by
    rw [hpaths, Function.update_eq_self]
  have hexecutions' : t.page.executions =
      Function.update s.page.executions k (s.page.executions k) := by
    rw [hexecutions, Function.update_eq_self]
  have hself : t.staging k = staging := by rw [hstaging, Function.update_self]
  obtain ⟨hcopied, heq⟩ | ⟨hcopied, heq⟩ := cleanUp_cases t k <;> rw [heq]
  · have hstaged : staged (s.paths k) = true := by
      rcases hends with hnone | ⟨hstaged, -⟩
      · rw [hself, hnone] at hcopied
        cases hcopied
      · exact hstaged
    have hfit : Fit (s.paths k) (.finished result) (s.page.executions k) .removing :=
      ⟨.ended hstaged (.inl rfl), fun e he hnone => absurd hnone (hover e he)⟩
    refine h.update hpaths' hcalls hexecutions' ?_ hfit
    show Function.update t.staging k _ = _
    rw [hstaging, Function.update_idem]
  · refine h.update hpaths' hcalls hexecutions' hstaging
      ⟨?_, fun e he hnone => absurd hnone (hover e he)⟩
    rcases hends with rfl | ⟨hstaged, rfl | rfl⟩
    · exact .nothing
    · exact absurd hself hcopied
    · exact .ended hstaged (.inr (.inr (.inr rfl)))

/-- The end of `materializeFile`: the file is sent from the directory it was copied to, or from
where it was; or the call is over, and a directory with a copy is being removed. -/
theorem Staged.materialized (h : s.Staged) (hinvoked : s.page.Invoked) {k : Nat}
    {selected : Except String String} {staging : Staging} (hcall : s.page.calls k = .materializing)
    (hmaterialized : Materialized (s.paths k) (s.staging k) staging selected) :
    ((s.setStaging k staging).materialized k selected
      (SendPage.materialized typeError s.page k selected)).Staged := by
  have hnone : s.page.executions k = none := hinvoked k (.inr hcall)
  have hfits := (h k).fits
  rw [hcall] at hfits
  obtain ⟨peer, filename, hpeer, rfl, hpage⟩ | ⟨-, -, hexecutions, error, hcalls⟩ :=
    SendPage.materialized_spec typeError s.page k selected
  · have hsent : (SendPage.materialized typeError s.page k (.ok filename)).calls k = .sending := by
      rw [hpage]
      exact SendPage.setCall_self ..
    have hselected : (SendPage.materialized typeError s.page k (.ok filename)).selectedPeer =
        some peer := by
      rw [hpage]
      exact hpeer
    have hfit : Fit (s.paths k) .sending (some .invoked) staging := by
      refine ⟨?_, fun _ _ _ => rfl⟩
      generalize s.staging k = before at hfits hmaterialized
      cases hmaterialized with
      | unstaged hplain => exact .unstaged (hplain filename rfl)
      | copied =>
        cases hfits with
        | made hstaged => exact .copied hstaged
    rw [materialized_sent hsent hselected]
    exact h.update (Function.update_eq_self k s.paths).symm (by rw [hpage]; rfl)
      (by rw [hpage]; rfl) rfl hfit
  · have hends : staging = .none ∨
        staged (s.paths k) = true ∧ (staging = .copied ∨ staging = .stranded) := by
      generalize s.staging k = before at hfits hmaterialized
      cases hmaterialized with
      | unstaged => exact .inl rfl
      | copied =>
        cases hfits with
        | made hstaged => exact .inr ⟨hstaged, .inl rfl⟩
      | stranded =>
        cases hfits with
        | made hstaged => exact .inr ⟨hstaged, .inr rfl⟩
    have hover : ∀ e, s.page.executions k = some e → e.result ≠ none := by
      intro e he
      rw [hnone] at he
      cases he
    have hended : (SendPage.materialized typeError s.page k selected).calls k ≠ .sending := by
      rw [hcalls, Function.update_self]
      exact SendPage.finished_ne_sending _
    obtain ⟨-, heq⟩ | ⟨filename, -, heq⟩ :=
        materialized_over (s.setStaging k staging) selected hended <;>
      rw [heq] <;> exact h.cleanUp rfl hcalls hexecutions rfl hover hends

/-- **Every step keeps the directories in step with the calls.** -/
theorem Staged.step (h : s.Staged) (hinvoked : s.page.Invoked)
    (hst : Step text decode device typeError s a s') : s'.Staged := by
  cases hst with
  | @choose k path call hnone hcall =>
    have hfit : Fit path call (s.page.executions k) (s.staging k) := by
      rw [(h k).staging_none (.inl hnone), hinvoked k (.inl hnone)]
      rcases hcall with rfl | ⟨rfl, -⟩
      · exact ⟨.returned, nofun⟩
      · exact ⟨.materializing, nofun⟩
    exact h.update rfl rfl (Function.update_eq_self k s.page.executions).symm
      (Function.update_eq_self k s.staging).symm hfit
  | @mkdir k hcall hnone hstaged =>
    have hfit : Fit (s.paths k) (s.page.calls k) (s.page.executions k) .made :=
      ⟨hcall ▸ .made hstaged, (h k).running⟩
    exact h.update (Function.update_eq_self k s.paths).symm
      (Function.update_eq_self k s.page.calls).symm
      (Function.update_eq_self k s.page.executions).symm rfl hfit
  | @removed k ok hremoving =>
    obtain ⟨hfits, hrunning⟩ := h k
    rw [hremoving] at hfits
    have hfit : Fit (s.paths k) (s.page.calls k) (s.page.executions k)
        (if ok then .removed else .left) := by
      refine ⟨?_, hrunning⟩
      generalize s.page.calls k = call at hfits
      cases hfits with
      | ended hstaged _ => cases ok <;> exact .ended hstaged (by simp)
    exact h.update (Function.update_eq_self k s.paths).symm
      (Function.update_eq_self k s.page.calls).symm
      (Function.update_eq_self k s.page.executions).symm rfl hfit
  | materialize hcall hmaterialized => exact h.materialized hinvoked hcall hmaterialized
  | @settle k result hcall hresult =>
    obtain ⟨-, hexecutions, result', hcalls⟩ := SendPage.settled_spec typeError s.page k result
    have hfits := (h k).fits
    rw [hcall] at hfits
    refine h.cleanUp rfl hcalls hexecutions (Function.update_eq_self k s.staging).symm ?_ ?_
    · intro e he hnone
      rw [he, Option.bind_some, hnone] at hresult
      cases hresult
    · generalize s.staging k = staging at hfits
      cases hfits with
      | unstaged => exact .inl rfl
      | copied hstaged => exact .inr ⟨hstaged, .inl rfl⟩
  | deliverPeers =>
    obtain ⟨-, hexecutions, hcalls⟩ := SendPage.onPeers_spec _
    exact h.same rfl hcalls hexecutions rfl
  | deliver =>
    obtain ⟨hexecutions, -, hcalls⟩ := SendPage.listen_executions _
    exact h.same rfl hcalls hexecutions rfl
  | process ha hst =>
    obtain ⟨k, execution, execution', lock, events, hk, rfl, hresult⟩ :=
      SendPage.process_spec ha hst
    have hfit : Fit (s.paths k) (s.page.calls k) (some execution') (s.staging k) := by
      refine ⟨(h k).fits, ?_⟩
      rintro _ ⟨⟩ hnone
      refine (h k).running execution hk
        (Option.eq_none_iff_forall_ne_some.mpr fun result hsome => ?_)
      rw [hresult result hsome] at hnone
      cases hnone
    exact h.update (Function.update_eq_self k s.paths).symm
      (Function.update_eq_self k s.page.calls).symm rfl (Function.update_eq_self k s.staging).symm
      hfit
  | watch | listen | readPeers | start | select | useTicket | idle | leave | receive =>
    exact h.same rfl rfl rfl rfl

/-- The directories of a run. -/
theorem reachable_staged (hs : (machine text decode device typeError).Reachable s) :
    s.Staged := by
  refine hs.invariant (I := Staged) ?_ ?_
  · rintro s rfl
    exact fun _ => ⟨.none, nofun⟩
  · intro s a s' hr h _ hst
    exact h.step (SendPage.reachable_invoked (reachable_page hr)) (step_spec hst)

/-! ## What is left -/

/-- A call leaves the directories of the others alone. -/
theorem staging_cleanUp {t : SendWindow} {j k : Nat} (hne : k ≠ j) :
    (t.cleanUp j).staging k = t.staging k := by
  obtain ⟨-, heq⟩ | ⟨-, heq⟩ := cleanUp_cases t j <;> rw [heq]
  · exact Function.update_of_ne hne ..
  · rfl

/-- So does the end of its `materializeFile`. -/
theorem staging_materialized {t : SendWindow} {j k : Nat} {selected : Except String String}
    {page : SendPage} (hne : k ≠ j) : (t.materialized j selected page).staging k = t.staging k := by
  unfold materialized
  split
  · exact staging_cleanUp hne
  · dsimp only
    split
    · rfl
    · exact staging_cleanUp hne

/-- A call that is over stays over, and its directory as it is, unless it is being removed. -/
theorem ended_step {k : Nat} {result : Except String SendOutcome}
    (hended : s.page.calls k = .finished result) (hremoving : s.staging k ≠ .removing)
    (hst : Step text decode device typeError s a s') :
    s'.page.calls k = .finished result ∧ s'.staging k = s.staging k := by
  have hother : ∀ {j : Nat} {call : SendCall}, s.page.calls j = call →
      (∀ result, call ≠ .finished result) → k ≠ j := by
    rintro j call hcall hne rfl
    exact hne result (hcall.symm.trans hended)
  cases hst with
  | @choose j path call hnone hcall =>
    have hne : k ≠ j := hother hnone nofun
    exact ⟨(SendPage.setCall_of_ne hne call).trans hended, rfl⟩
  | @mkdir j hcall =>
    have hne : k ≠ j := hother hcall nofun
    exact ⟨hended, Function.update_of_ne hne ..⟩
  | @removed j ok hj =>
    have hne : k ≠ j := by
      rintro rfl
      exact hremoving hj
    exact ⟨hended, Function.update_of_ne hne ..⟩
  | @materialize _ j selected staging hcall =>
    have hne : k ≠ j := hother hcall nofun
    refine ⟨?_, (staging_materialized hne).trans (Function.update_of_ne hne ..)⟩
    rw [page_materialized]
    obtain ⟨peer, filename, -, -, hpage⟩ | ⟨-, -, -, error, hcalls⟩ :=
      SendPage.materialized_spec typeError s.page j selected
    · rw [hpage]
      exact (SendPage.setCall_of_ne hne _).trans hended
    · rw [hcalls, Function.update_of_ne hne, hended]
  | @settle j result' hcall =>
    have hne : k ≠ j := hother hcall nofun
    obtain ⟨-, -, result'', hcalls⟩ := SendPage.settled_spec typeError s.page j result'
    refine ⟨?_, staging_cleanUp hne⟩
    rw [page_cleanUp]
    show (SendPage.settled typeError s.page j result').calls k = _
    rw [hcalls, Function.update_of_ne hne, hended]
  | deliverPeers =>
    exact ⟨(congrFun (SendPage.onPeers_spec _).2.2 k).trans hended, rfl⟩
  | deliver =>
    exact ⟨(congrFun (SendPage.listen_executions _).2.2 k).trans hended, rfl⟩
  | process ha hst =>
    obtain ⟨j, execution, execution', lock, events, -, rfl, -⟩ := SendPage.process_spec ha hst
    exact ⟨hended, rfl⟩
  | watch | listen | readPeers | start | select | useTicket | idle | leave | receive =>
    exact ⟨hended, rfl⟩

/-- What has become of the directory of a call that is over stays so, unless it is still being
removed. -/
theorem ended_exec {k : Nat} {result : Except String SendOutcome} (as : List Action)
    (hended : s.page.calls k = .finished result) (hremoving : s.staging k ≠ .removing)
    (hrun : (machine text decode device typeError).exec s as = some s') :
    s'.staging k = s.staging k := by
  induction as generalizing s with
  | nil => exact Option.some.inj hrun ▸ rfl
  | cons a as ih =>
    rw [Machine.exec_cons, Option.bind_eq_some_iff] at hrun
    obtain ⟨t, hst, hrun⟩ := hrun
    obtain ⟨hended', hsame⟩ := ended_step hended hremoving (step_spec hst)
    rw [← hsame] at hremoving ⊢
    exact ih hended' hremoving hrun

/-- **The copy lives as long as it is needed.**  While `send_file` runs for a file that had
to be copied, the copy is there, and a directory is only ever made for such a file.  When
the call is over its directory is gone or going, or else `remove` or `copyFile` has failed,
and then it stays whatever happens. -/
theorem copy_lives (hs : (machine text decode device typeError).Reachable s) (k : Nat) :
    (∀ execution, s.page.executions k = some execution → execution.result = none →
      staged (s.paths k) = true → s.staging k = .copied) ∧
    ((s.staging k).onDisk = true → staged (s.paths k) = true) ∧
    ∀ result, s.page.calls k = .finished result → (s.staging k).onDisk = true →
      s.staging k = .removing ∨ (s.staging k = .left ∨ s.staging k = .stranded) ∧
        ∀ as s', (machine text decode device typeError).exec s as = some s' →
          (s'.staging k).onDisk = true := by
  obtain ⟨hfits, hrunning⟩ := reachable_staged hs k
  refine ⟨fun execution hk hnone hstaged => ?_, fun hdisk => ?_, fun result hended hdisk => ?_⟩
  · rw [hrunning execution hk hnone] at hfits
    generalize s.staging k = staging at hfits
    cases hfits with
    | unstaged hplain =>
      rw [hplain] at hstaged
      cases hstaged
    | copied => rfl
  · generalize s.staging k = staging at hfits hdisk
    generalize s.page.calls k = call at hfits
    cases hfits with
    | made hstaged | copied hstaged | ended hstaged => exact hstaged
    | _ => cases hdisk
  · have hcases : s.staging k = .removing ∨ s.staging k = .left ∨ s.staging k = .stranded := by
      rw [hended] at hfits
      generalize s.staging k = staging at hfits hdisk
      cases hfits with
      | nothing => cases hdisk
      | ended _ hstaging =>
        rcases hstaging with rfl | rfl | rfl | rfl
        · exact .inl rfl
        · cases hdisk
        · exact .inr (.inl rfl)
        · exact .inr (.inr rfl)
    rcases hcases with hremoving | hleft
    · exact .inl hremoving
    · refine .inr ⟨hleft, fun as s' hrun => ?_⟩
      have hremoving : s.staging k ≠ .removing := by
        rcases hleft with hleft | hleft <;> rw [hleft] <;> nofun
      rw [ended_exec as hended hremoving hrun]
      exact hdisk

/-- A file that has been copied is on its way, and another one could not be copied. -/
def copiedRun : List Action :=
  [.useTicket "a", .choose 0 "content://x", .mkdir 0, .copied 0 "x", .process (.lock 0)]

/-- A directory is made, and the copy fails. -/
def strandedRun : List Action :=
  [.useTicket "a", .choose 0 "content://x", .mkdir 0, .copyFails 0 "no space"]

theorem copy_lives_stranded :
    (∃ s, (machine PeerWatch.sampleText sampleDecode ⟨"me", true⟩ id).exec {} copiedRun = some s ∧
      s.staging 0 = .copied) ∧
    ∃ s, (machine PeerWatch.sampleText sampleDecode ⟨"me", true⟩ id).exec {} strandedRun = some s ∧
      ∀ as s', (machine PeerWatch.sampleText sampleDecode ⟨"me", true⟩ id).exec s as = some s' →
        (s'.staging 0).onDisk = true := by
  have hstart : (machine PeerWatch.sampleText sampleDecode ⟨"me", true⟩ id).Reachable {} :=
    .init rfl
  have hcopied : (machine PeerWatch.sampleText sampleDecode ⟨"me", true⟩ id).exec {} copiedRun =
    some _ := rfl
  have hstranded : (machine PeerWatch.sampleText sampleDecode ⟨"me", true⟩ id).exec {}
    strandedRun = some _ := rfl
  refine ⟨⟨_, hcopied, (copy_lives (hstart.exec hcopied) 0).1 _ rfl rfl rfl⟩, _, hstranded, ?_⟩
  obtain ⟨-, -, hleft⟩ := copy_lives (hstart.exec hstranded) 0
  rcases hleft _ rfl rfl with hremoving | ⟨-, hstays⟩
  · cases hremoving
  · exact hstays

end SendWindow
end IrohShare
