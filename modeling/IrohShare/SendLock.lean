import IrohShare.SendPage

/-!
# One transfer at a time

`send_file` holds `send_lock` from its first line to its return, and turns away who
finds it held; but the task that forwards its progress holds nothing, and may emit when
`send_file` has returned and the next one has begun.

A run is read as the executions that enter and leave, and as the events each of them
emits.  What an execution still has to emit when it returns is at most one event, since
the channel keeps only the last value and is closed by then.
-/
namespace IrohShare
open Transition

namespace SendFile

/-- The task has taken the last value, and will find nothing else. -/
def Drained (s : SendFile) : Prop :=
  s.reader.phase ≠ .woken ∧ s.reader.seen = s.channel.version

/-- What `run_sender` has returned. -/
def result (s : SendFile) : Option (Except String SendOutcome) := (Execution.running s).result

theorem result_eq_some {s : SendFile} {result : Except String SendOutcome} :
    s.result = some result ↔ s.phase = .returned result := by
  unfold SendFile.result Execution.result
  dsimp only
  split <;> simp_all

/-- What a step means for the lock: it emits nothing and returns nothing new, or it returns,
or it emits one event and has drained the channel. -/
inductive Turn (s s' : SendFile) : Prop
  | quiet : s'.result = s.result → s'.emitted = s.emitted → (s.Drained → s.channel.closed = true →
      s'.Drained) → Turn s s'
  | returned (result : Except String SendOutcome) : s.result = none → s'.result = some result →
      s'.emitted = s.emitted → Turn s s'
  | emitted (p : TransferProgress) : s'.result = s.result → s'.emitted = s.emitted ++ [p] →
      ¬ s.Drained → s'.Drained → Turn s s'

theorem HoldsSender.result_none {s : SendFile} (h : s.HoldsSender)
    (hopen : s.channel.closed = false) :
    s.result = none := by
  rw [← Option.not_isSome_iff_eq_none]
  intro hsome
  obtain ⟨result, hresult⟩ := Option.isSome_iff_exists.mp hsome
  rw [h.mpr ⟨result, result_eq_some.mp hresult⟩] at hopen
  cases hopen

theorem HoldsSender.closed {s : SendFile} (h : s.HoldsSender) (hsome : s.result.isSome = true) :
    s.channel.closed = true := by
  obtain ⟨result, hresult⟩ := Option.isSome_iff_exists.mp hsome
  exact h.mpr ⟨result, result_eq_some.mp hresult⟩

theorem Step.turn {s s' : SendFile} (hst : s.Step s') (hholds : s.HoldsSender) : s.Turn s' := by
  have hholds' := hholds.step hst
  cases hst with
  | finish response result hopen =>
    exact .returned result (hholds.result_none hopen) (result_eq_some.mpr rfl) rfl
  | accepted recv rest hphase =>
    have hopen := hholds.open_of_ne (by rw [hphase]; nofun)
    refine .quiet ?_ rfl (fun _ hclosed => ?_)
    · rw [hholds.result_none hopen]
      exact hholds'.result_none hopen
    · rw [hopen] at hclosed
      cases hclosed
  | progress bytes recv hopen =>
    refine .quiet ?_ rfl (fun _ hclosed => ?_)
    · rw [hholds.result_none hopen]
      exact hholds'.result_none hopen
    · rw [hopen] at hclosed
      cases hclosed
  | wake reader hwake =>
    refine .quiet rfl rfl (fun hdrained _ => ?_)
    obtain ⟨-, ⟨hchanged, -⟩ | ⟨-, rfl⟩⟩ := Watch.Reader.wake_spec hwake
    · exact absurd hdrained.2 (Watch.Channel.changed_eq_unseen hchanged)
    · exact ⟨by simp, hdrained.2⟩
  | emit downloaded taking reader htake hresume =>
    obtain ⟨hphase, -, rfl⟩ := Watch.Reader.take_spec htake
    obtain ⟨-, rfl⟩ := Watch.Reader.resume_spec hresume
    exact .emitted ⟨downloaded, s.total⟩ rfl rfl (fun hdrained => hdrained.1 hphase) ⟨by simp, rfl⟩

end SendFile

/-- The execution has the lock: it is in its checks, or in `run_sender`. -/
def Execution.active : Execution → Bool
  | checking => true
  | running file => file.result.isNone
  | _ => false

namespace SendPage

/-! ## What a run is judged by -/

/-- What happens at the lock, and what is emitted. -/
inductive LockEvent
  | entered (k : Nat)
  | turnedAway (k holder : Nat)
  | left (k : Nat)
  | emitted (event : SendEvent)
  deriving DecidableEq, Repr

/-- The event of a step. -/
def lockEvent (s : SendPage) : Action → Option LockEvent
  | .lock k =>
    match s.executions k, s.lock with
    | some .invoked, none => some (.entered k)
    | some .invoked, some holder => some (.turnedAway k holder)
    | _, _ => none
  | .fail k _ => some (.left k)
  | .start k filename total => some (.emitted ⟨k, .started filename total⟩)
  | .send k a =>
    match s.executions k with
    | some (.running file) => (file.step a).bind fun file' =>
      if file.result.isNone && file'.result.isSome then some (.left k)
      else (file'.emitted.drop file.emitted.length).head?.map
        (fun p => .emitted ⟨k, .progress p⟩)
    | _ => none
  | _ => none

/-- The page with the log of its lock. -/
def lockLogged (typeError : String → String) : Machine (Logged SendPage LockEvent) Action :=
  (machine typeError).logged lockEvent

/-- The events of execution `k`. -/
def LockEvent.ofExecution (k : Nat) : LockEvent → Bool
  | entered k' | turnedAway k' _ | left k' => k' = k
  | emitted event => event.source = k

/-- Who enters and leaves. -/
def LockEvent.atLock : LockEvent → Bool
  | entered _ | left _ => true
  | _ => false

/-- The events of execution `k`, oldest first. -/
def lockTrail (log : List LockEvent) (k : Nat) : List LockEvent :=
  (log.filter (LockEvent.ofExecution k)).reverse

/-- Who has entered and left, oldest first. -/
def passages (log : List LockEvent) : List LockEvent := (log.filter LockEvent.atLock).reverse

/-- Executions one after the other, and perhaps one that has not left. -/
def inTurn (ks : List Nat) (holder : Option Nat) : List LockEvent :=
  ks.flatMap (fun k => [.entered k, .left k]) ++ holder.toList.map .entered

/-- The progress that execution `k` has emitted. -/
def progressOf (k : Nat) (ps : List TransferProgress) : List LockEvent :=
  ps.map (fun p => .emitted ⟨k, .progress p⟩)

/-! ## What a step can do -/

/-- The steps of the executions, with the event each of them leaves. -/
inductive LockStep (s s' : SendPage) : Option LockEvent → Prop
  | still : s'.executions = s.executions → s'.lock = s.lock → LockStep s s' none
  | invoked (k : Nat) : s.executions k = none →
      s'.executions = Function.update s.executions k (some .invoked) → s'.lock = s.lock →
      LockStep s s' none
  | entered (k : Nat) : s.executions k = some .invoked → s.lock = none →
      s'.executions = Function.update s.executions k (some .checking) → s'.lock = some k →
      LockStep s s' (some (.entered k))
  | turnedAway (k holder : Nat) : s.executions k = some .invoked → s.lock = some holder →
      s'.executions =
        Function.update s.executions k (some (.rejected "A transfer is already running")) →
      s'.lock = s.lock → LockStep s s' (some (.turnedAway k holder))
  | failed (k : Nat) (error : String) : s.executions k = some .checking →
      s'.executions = Function.update s.executions k (some (.rejected error)) → s'.lock = none →
      LockStep s s' (some (.left k))
  | started (k : Nat) (filename : String) (total : UInt64) : s.executions k = some .checking →
      s'.executions = Function.update s.executions k (some (.running { total })) →
      s'.lock = s.lock → LockStep s s' (some (.emitted ⟨k, .started filename total⟩))
  | moved (k : Nat) (file file' : SendFile) (a : SendFile.Action) (event : Option LockEvent) :
      s.executions k = some (.running file) → file.step a = some file' →
      s'.executions = Function.update s.executions k (some (.running file')) →
      s'.lock = (if s.lock = some k ∧ file'.result.isSome then none else s.lock) →
      event = (if file.result.isNone && file'.result.isSome then some (.left k)
        else (file'.emitted.drop file.emitted.length).head?.map
          (fun p => .emitted ⟨k, .progress p⟩)) →
      LockStep s s' event

/-- Executions belong to calls that are past `materializeFile`. -/
def Invoked (s : SendPage) : Prop :=
  ∀ k, s.calls k = .none ∨ s.calls k = .materializing → s.executions k = none

variable {typeError : String → String} {s s' : SendPage} {a : Action}

/-! ### What the functions of the page leave alone -/

theorem catchError_executions (k : Nat) (error : String) :
    (s.catchError k error).executions = s.executions ∧
      (s.catchError k error).lock = s.lock ∧ (s.catchError k error).calls = s.calls := by
  unfold catchError
  dsimp only
  split <;> exact ⟨rfl, rfl, rfl⟩

theorem listen_executions (payload : SendPayload) :
    (s.listen payload).executions = s.executions ∧ (s.listen payload).lock = s.lock ∧
      (s.listen payload).calls = s.calls := by
  unfold listen
  split
  · exact ⟨rfl, rfl, rfl⟩
  · split
    · exact ⟨rfl, rfl, rfl⟩
    · split <;> exact ⟨rfl, rfl, rfl⟩

variable (typeError s) in
theorem settled_executions (k : Nat) (result : Except String SendOutcome) :
    (settled typeError s k result).executions = s.executions ∧
      (settled typeError s k result).lock = s.lock ∧
      ∃ call,
        (settled typeError s k result).calls = Function.update s.calls k (.finished call) := by
  unfold settled
  split
  · split
    · exact ⟨rfl, rfl, _, rfl⟩
    · obtain ⟨hexecutions, hlock, hcalls⟩ := catchError_executions (s := s) k (typeError "status")
      exact ⟨hexecutions, hlock, _, by rw [setCall, hcalls]⟩
  · obtain ⟨hexecutions, hlock, hcalls⟩ := catchError_executions (s := s) k _
    exact ⟨hexecutions, hlock, _, by rw [setCall, hcalls]⟩

theorem finished_ne_sending (result : Except String SendOutcome) :
    SendCall.finished result ≠ .sending := by
  intro h
  cases h

theorem catchError_selectedPeer (k : Nat) (error : String) :
    (s.catchError k error).selectedPeer = s.selectedPeer := by
  unfold catchError
  dsimp only
  split <;> rfl

theorem listen_selectedPeer (payload : SendPayload) :
    (s.listen payload).selectedPeer = s.selectedPeer := by
  unfold listen
  split
  · rfl
  · split
    · rfl
    · split <;> rfl

theorem settled_selectedPeer (k : Nat) (result : Except String SendOutcome) :
    (settled typeError s k result).selectedPeer = s.selectedPeer := by
  unfold settled
  split
  · split
    · rfl
    · exact catchError_selectedPeer k _
  · exact catchError_selectedPeer k _

variable (typeError s) in
/-- `sendSelected` behind `materializeFile`: the file is sent to the peer that is selected,
or the call is over. -/
theorem materialized_spec (k : Nat) (selected : Except String String) :
    (∃ peer filename, s.selectedPeer = some peer ∧ selected = .ok filename ∧
      materialized typeError s k selected =
        (((s.create ⟨k, false⟩ { status := .sending, filename }).setCall k .sending).setExecution k
          .invoked)) ∨
    (s.selectedPeer = none ∨ ∃ error, selected = .error error) ∧
      (materialized typeError s k selected).selectedPeer = s.selectedPeer ∧
      (materialized typeError s k selected).executions = s.executions ∧
      ∃ error, (materialized typeError s k selected).calls =
        Function.update s.calls k (.finished (.error error)) := by
  unfold materialized
  cases selected with
  | ok filename =>
    dsimp only
    split
    · rename_i peer hpeer
      exact .inl ⟨peer, filename, hpeer, rfl, rfl⟩
    · rename_i hpeer
      obtain ⟨hexecutions, -, hcalls⟩ := catchError_executions k (typeError "ticket")
        (s := s.create ⟨k, false⟩ { status := .sending, filename })
      refine .inr ⟨.inl hpeer, catchError_selectedPeer k _, hexecutions, typeError "ticket", ?_⟩
      exact congrArg (Function.update · k _) hcalls
  | error error =>
    obtain ⟨hexecutions, -, hcalls⟩ := catchError_executions (s := s) k error
    exact .inr ⟨.inr ⟨error, rfl⟩, catchError_selectedPeer k error, hexecutions, error,
      congrArg (Function.update · k _) hcalls⟩

variable (typeError s) in
theorem settled_spec (k : Nat) (result : Except String SendOutcome) :
    (settled typeError s k result).selectedPeer = s.selectedPeer ∧
      (settled typeError s k result).executions = s.executions ∧
      ∃ result', (settled typeError s k result).calls =
        Function.update s.calls k (.finished result') := by
  obtain ⟨hexecutions, -, hcalls⟩ := settled_executions typeError s k result
  exact ⟨settled_selectedPeer k result, hexecutions, hcalls⟩

theorem onPeers_spec (payload : List Peer) :
    ((s.onPeers payload).selectedPeer = none ∨ (s.onPeers payload).selectedPeer = s.selectedPeer) ∧
      (s.onPeers payload).executions = s.executions ∧ (s.onPeers payload).calls = s.calls := by
  unfold onPeers
  split
  · split
    · exact ⟨.inl rfl, rfl, rfl⟩
    · exact ⟨.inr rfl, rfl, rfl⟩
  · exact ⟨.inr rfl, rfl, rfl⟩

theorem transfer_of_listen (payload : SendPayload) : (s.listen payload).transfer = s.transfer := by
  unfold listen
  split
  · rfl
  · split
    · rfl
    · split <;> rfl

/-- An execution that has returned has returned. -/
theorem result_of_step {file file' : SendFile} {a : SendFile.Action}
    (hst : file.step a = some file') {result : Except String SendOutcome}
    (hresult : file.result = some result) :
    file'.result = some result := by
  have hphase := SendFile.result_eq_some.mp hresult
  rw [SendFile.result_eq_some]
  cases a <;> simp only [SendFile.step, hphase, reduceCtorEq] at hst
  case wake =>
    obtain ⟨reader, -, rfl⟩ := Option.map_eq_some_iff.mp hst
    rfl
  case emit =>
    split at hst
    · obtain ⟨reader, -, rfl⟩ := Option.map_eq_some_iff.mp hst
      rfl
    · cases hst

/-- What an execution has returned stays, as it goes on. -/
theorem stepExecution_frame {a : SendPage.Action} {k : Nat} {execution : Execution}
    (hst : s.stepExecution k execution a = some s') :
    ∃ execution' lock events,
      s' = { s with
        executions := Function.update s.executions k (some execution'), lock, events } ∧
      (∀ result, execution.result = some result → execution'.result = some result) := by
  cases a <;> simp only [stepExecution, reduceCtorEq] at hst
  case lock =>
    split at hst <;> cases hst
    · exact ⟨_, _, _, rfl, fun result h => by cases h⟩
    · exact ⟨_, _, _, rfl, fun result h => by cases h⟩
  case fail =>
    split at hst <;> cases hst
    exact ⟨_, _, _, rfl, fun result h => by cases h⟩
  case start =>
    split at hst <;> cases hst
    exact ⟨_, _, _, rfl, fun result h => by cases h⟩
  case send =>
    split at hst
    · obtain ⟨file', hfile, rfl⟩ := Option.map_eq_some_iff.mp hst
      exact ⟨_, _, _, rfl, fun _ => result_of_step hfile⟩
    · cases hst

/-! ### What a step does at the lock -/

theorem Invoked.of_calls (hinv : s.Invoked) (hexecutions : s'.executions = s.executions)
    (hcalls : ∀ k, s'.calls k = .none ∨ s'.calls k = .materializing →
      s.calls k = .none ∨ s.calls k = .materializing) : s'.Invoked :=
  fun k hk => hexecutions ▸ hinv k (hcalls k hk)

/-- The steps that leave the calls and the executions alone. -/
theorem Invoked.same (hinv : s.Invoked) (hexecutions : s'.executions = s.executions)
    (hcalls : s'.calls = s.calls) : s'.Invoked :=
  hinv.of_calls hexecutions (fun _ hk => hcalls ▸ hk)

/-- A call that is over by then. -/
theorem Invoked.finish (hinv : s.Invoked) {k : Nat} {result : Except String SendOutcome}
    (hexecutions : s'.executions = s.executions)
    (hcalls : s'.calls = Function.update s.calls k (.finished result)) : s'.Invoked := by
  refine hinv.of_calls hexecutions (fun j hj => ?_)
  rw [hcalls] at hj
  by_cases heq : j = k
  · subst heq
    simp at hj
  · rwa [Function.update_of_ne heq] at hj

theorem lockStep_materialized (hinv : s.Invoked) {k : Nat} {selected : Except String String}
    (hk : s.calls k = .materializing) :
    LockStep s (materialized typeError s k selected) none ∧
      (materialized typeError s k selected).Invoked := by
  have hnone := hinv k (.inr hk)
  unfold materialized
  split
  · dsimp only
    split
    · refine ⟨.invoked k hnone rfl rfl, fun j hj => ?_⟩
      by_cases heq : j = k
      · subst heq
        simp [setExecution, setCall] at hj
      · have hj : s.calls j = .none ∨ s.calls j = .materializing := by
          simpa [setExecution, setCall, create, heq] using hj
        show Function.update s.executions k _ j = none
        rw [Function.update_of_ne heq]
        exact hinv j hj
    · obtain ⟨hexecutions, hlock, hcalls⟩ := catchError_executions
        (s := s.create ⟨k, false⟩ { status := .sending, filename := ‹String› }) k
        (typeError "ticket")
      exact ⟨.still hexecutions hlock, hinv.finish hexecutions (by rw [setCall, hcalls]; rfl)⟩
  · obtain ⟨hexecutions, hlock, hcalls⟩ := catchError_executions (s := s) k _
    exact ⟨.still hexecutions hlock, hinv.finish hexecutions (by rw [setCall, hcalls])⟩

theorem lockStep_execution (hinv : s.Invoked) {k : Nat} {execution : Execution}
    (ha : (∃ f t, a = .start k f t) ∨ a = .lock k ∨ (∃ e, a = .fail k e) ∨ ∃ a', a = .send k a')
    (hk : s.executions k = some execution) (hst : s.stepExecution k execution a = some s') :
    LockStep s s' (s.lockEvent a) ∧ s'.Invoked := by
  have hcalls : ∀ {s' : SendPage} {execution' : Execution},
      s'.executions = Function.update s.executions k (some execution') → s'.calls = s.calls →
      s'.Invoked := by
    intro s' execution' hexecutions hcalls j hj
    rw [hcalls] at hj
    have hnone := hinv j hj
    have heq : j ≠ k := by
      rintro rfl
      rw [hk] at hnone
      cases hnone
    rw [hexecutions, Function.update_of_ne heq, hnone]
  rcases ha with ⟨filename, total, rfl⟩ | rfl | ⟨error, rfl⟩ | ⟨a', rfl⟩ <;>
    simp only [stepExecution] at hst
  · split at hst <;> cases hst
    exact ⟨.started k filename total hk rfl rfl, hcalls rfl rfl⟩
  · split at hst <;> cases hst
    · rename_i hlock
      simp only [lockEvent, hk, hlock]
      exact ⟨.entered k hk hlock rfl rfl, hcalls rfl rfl⟩
    · rename_i holder hlock
      simp only [lockEvent, hk, hlock]
      exact ⟨.turnedAway k holder hk hlock rfl rfl, hcalls rfl rfl⟩
  · split at hst <;> cases hst
    exact ⟨.failed k error hk rfl rfl, hcalls rfl rfl⟩
  · split at hst
    · obtain ⟨file', hfile, rfl⟩ := Option.map_eq_some_iff.mp hst
      simp only [lockEvent, hk, hfile, Option.bind_some]
      exact ⟨.moved k _ file' a' _ hk hfile rfl rfl rfl, hcalls rfl rfl⟩
    · cases hst

theorem lockStep_spec (hinv : s.Invoked) (hst : s.step typeError a = some s') :
    LockStep s s' (s.lockEvent a) ∧ s'.Invoked := by
  cases a with
  | sendSelected k =>
    simp only [step] at hst
    split at hst
    · rename_i hk
      cases hst
      refine ⟨.still rfl rfl, hinv.of_calls rfl (fun j hj => ?_)⟩
      by_cases heq : j = k
      · exact .inl (heq ▸ hk)
      · rwa [setCall_of_ne heq] at hj
    · cases hst
  | materialize k selected =>
    simp only [step] at hst
    split at hst
    · cases hst
      exact lockStep_materialized hinv ‹_›
    · cases hst
  | settle k =>
    simp only [step] at hst
    split at hst
    · cases hst
      obtain ⟨hexecutions, hlock, result, hcalls⟩ :=
        settled_executions typeError s k _
      exact ⟨.still hexecutions hlock, hinv.finish hexecutions hcalls⟩
    · cases hst
  | peers payload =>
    cases hst
    unfold onPeers
    split
    · split <;> exact ⟨.still rfl rfl, hinv.same rfl rfl⟩
    · exact ⟨.still rfl rfl, hinv.same rfl rfl⟩
  | select peer | another | back =>
    simp only [step] at hst
    split at hst <;> cases hst <;> exact ⟨.still rfl rfl, hinv.same rfl rfl⟩
  | useTicket peer =>
    cases hst
    exact ⟨.still rfl rfl, hinv.same rfl rfl⟩
  | deliver =>
    simp only [step] at hst
    split at hst
    · rename_i event events _
      cases hst
      obtain ⟨hexecutions, hlock, hcalls⟩ :=
        listen_executions (s := { s with events }) event.payload
      exact ⟨.still hexecutions hlock, hinv.same hexecutions hcalls⟩
    · cases hst
  | lock k | fail k error | start k filename total | send k a =>
    obtain ⟨execution, hk, hst⟩ := Option.bind_eq_some_iff.mp hst
    exact lockStep_execution hinv (by simp) hk hst

/-! ## Who has the lock -/

/-- What is known of execution `k` from its events. -/
def ExecutionStory (k : Nat) (trail : List LockEvent) : Option Execution → Prop
  | none | some .invoked => trail = []
  | some .checking => trail = [.entered k]
  | some (.rejected error) =>
    (∃ holder, holder ≠ k ∧ trail = [.turnedAway k holder] ∧
      error = "A transfer is already running") ∨ trail = [.entered k, .left k]
  | some (.running file) => ∃ filename before after,
    before ++ after = file.emitted ∧ after.length ≤ 1 ∧
    trail = .entered k :: .emitted ⟨k, .started filename file.total⟩ :: progressOf k before ++
      (if file.result.isSome then .left k :: progressOf k after else []) ∧
    (file.result = none → after = []) ∧ (after ≠ [] → file.Drained)

/-- The lock is held by the one execution that is active, and the passages are those of
executions one after the other. -/
structure Exclusive (s : SendPage) (log : List LockEvent) : Prop where
  invoked : s.Invoked
  holder : ∀ k, s.lock = some k ↔ (s.executions k).any Execution.active = true
  reachable : ∀ k file, s.executions k = some (.running file) →
    (SendFile.machine file.total).Reachable file
  passages : ∃ ks, passages log = inTurn ks s.lock
  story : ∀ k, ExecutionStory k (lockTrail log k) (s.executions k)

theorem lockTrail_cons (e : LockEvent) (log : List LockEvent) (k : Nat) :
    lockTrail (e :: log) k = lockTrail log k ++ if e.ofExecution k then [e] else [] := by
  cases h : e.ofExecution k <;> simp [lockTrail, h]

theorem passages_cons (e : LockEvent) (log : List LockEvent) :
    SendPage.passages (e :: log) = SendPage.passages log ++ if e.atLock then [e] else [] := by
  cases h : e.atLock <;> simp [SendPage.passages, h]

variable {log : List LockEvent} {event : Option LockEvent} {k : Nat} {execution' : Execution}

/-- The lock after a step of execution `k` is still with the one that is active. -/
theorem Exclusive.holder_update (he : Exclusive s log)
    (hexecutions : s'.executions = Function.update s.executions k (some execution'))
    (hself : s'.lock = some k ↔ execution'.active = true)
    (hother : ∀ j, j ≠ k → (s'.lock = some j ↔ s.lock = some j)) (j : Nat) :
    s'.lock = some j ↔ (s'.executions j).any Execution.active = true := by
  rw [hexecutions]
  by_cases heq : j = k
  · subst heq
    rw [Function.update_self, hself, Option.any_some]
  · rw [Function.update_of_ne heq, hother j heq, he.holder j]

/-- A step of execution `k` leaves the stories of the others. -/
theorem Exclusive.update (he : Exclusive s log) (hinvoked : s'.Invoked)
    (hexecutions : s'.executions = Function.update s.executions k (some execution'))
    (hself : s'.lock = some k ↔ execution'.active = true)
    (hother : ∀ j, j ≠ k → (s'.lock = some j ↔ s.lock = some j))
    (hown : ∀ e ∈ event, ∀ j, j ≠ k → e.ofExecution j = false)
    (hreachable : ∀ file, execution' = .running file →
      (SendFile.machine file.total).Reachable file)
    (hpassages : ∃ ks, SendPage.passages (event.toList ++ log) = inTurn ks s'.lock)
    (hstory : ExecutionStory k (lockTrail (event.toList ++ log) k) (some execution')) :
    Exclusive s' (event.toList ++ log) := by
  refine ⟨hinvoked, he.holder_update hexecutions hself hother, ?_, hpassages, fun j => ?_⟩
  · intro j file hj
    rw [hexecutions] at hj
    by_cases heq : j = k
    · rw [heq, Function.update_self] at hj
      exact hreachable file (Option.some.inj hj)
    · rw [Function.update_of_ne heq] at hj
      exact he.reachable j file hj
  · rw [hexecutions]
    by_cases heq : j = k
    · rw [heq, Function.update_self]
      exact hstory
    · rw [Function.update_of_ne heq]
      have hsame : lockTrail (event.toList ++ log) j = lockTrail log j := by
        cases event with
        | none => rfl
        | some e => simp [lockTrail_cons, hown e rfl j heq]
      exact hsame ▸ he.story j

theorem passages_of_not {e : LockEvent} (he : e.atLock = false) :
    SendPage.passages (e :: log) = SendPage.passages log := by
  simp [passages_cons, he]

/-- A step of `run_sender` or of its task, from `file` to `file'`, in execution `k`. -/
structure Moves (s : SendPage) (k : Nat) (file file' : SendFile) (event : Option LockEvent)
    (s' : SendPage) : Prop where
  running : s.executions k = some (.running file)
  executions : s'.executions = Function.update s.executions k (some (.running file'))
  lock : s'.lock = if s.lock = some k ∧ file'.result.isSome then none else s.lock
  event : event = if file.result.isNone && file'.result.isSome then some (.left k)
    else (file'.emitted.drop file.emitted.length).head?.map (fun p => .emitted ⟨k, .progress p⟩)
  total : file'.total = file.total
  reachable : (SendFile.machine file'.total).Reachable file'

variable {file file' : SendFile}

/-- An execution has the lock until it returns. -/
theorem Exclusive.held (he : Exclusive s log) (hm : Moves s k file file' event s') :
    s.lock = some k ↔ file.result = none := by
  rw [he.holder k, hm.running, Option.any_some, Execution.active, Option.isNone_iff_eq_none]

/-- An execution that returns nothing new keeps the lock, or goes on without it. -/
theorem Exclusive.lock_moved (he : Exclusive s log) (hm : Moves s k file file' event s')
    (hresult : file'.result = file.result) : s'.lock = s.lock := by
  rw [hm.lock, if_neg]
  rintro ⟨hk, hsome⟩
  rw [hresult, (he.held hm).mp hk] at hsome
  cases hsome

theorem Moves.reachable_of_running (hm : Moves s k file file' event s') (file₁ : SendFile)
    (hrunning : Execution.running file' = .running file₁) :
    (SendFile.machine file₁.total).Reachable file₁ := by
  cases hrunning
  exact hm.reachable

/-- The step returns and emits nothing. -/
theorem Exclusive.moved_quiet (he : Exclusive s log) (hinvoked : s'.Invoked)
    (hm : Moves s k file file' event s') (hholds : file.HoldsSender)
    (hresult : file'.result = file.result) (hsame : file'.emitted = file.emitted)
    (hkeeps : file.Drained → file.channel.closed = true → file'.Drained) :
    Exclusive s' (event.toList ++ log) := by
  obtain ⟨ks, hks⟩ := he.passages
  have hstory := he.story k
  rw [hm.running] at hstory
  obtain ⟨filename, before, after, hemitted, hone, htrail, hafter, hdrained⟩ := hstory
  have hnothing : event = none := by
    rw [hm.event, hresult, hsame]
    cases file.result <;> simp
  have hlock := he.lock_moved hm hresult
  subst hnothing
  refine he.update hinvoked hm.executions ?_ (fun j _ => by rw [hlock]) (by simp)
    hm.reachable_of_running ⟨ks, hlock ▸ hks⟩
    ⟨filename, before, after, hsame ▸ hemitted, hone, ?_, ?_, ?_⟩
  · rw [hlock, he.held hm, Execution.active, hresult, Option.isNone_iff_eq_none]
  · rw [hm.total, hresult]
    exact htrail
  · rw [hresult]
    exact hafter
  · intro hne
    refine hkeeps (hdrained hne) (hholds.closed ?_)
    rw [Option.isSome_iff_ne_none]
    exact fun hnone => hne (hafter hnone)

/-- The step returns, and gives the lock back. -/
theorem Exclusive.moved_returned (he : Exclusive s log) (hinvoked : s'.Invoked)
    (hm : Moves s k file file' event s') {result : Except String SendOutcome}
    (hnone : file.result = none) (hsome : file'.result = some result)
    (hsame : file'.emitted = file.emitted) : Exclusive s' (event.toList ++ log) := by
  obtain ⟨ks, hks⟩ := he.passages
  have hstory := he.story k
  rw [hm.running] at hstory
  obtain ⟨filename, before, after, hemitted, hone, htrail, hafter, hdrained⟩ := hstory
  have hleft : event = some (.left k) := by
    rw [hm.event, hnone, hsome]
    rfl
  have hheld := (he.held hm).mpr hnone
  have hlock : s'.lock = none := by
    rw [hm.lock, if_pos ⟨hheld, by rw [hsome]; rfl⟩]
  subst hleft
  refine he.update hinvoked hm.executions (by simp [hlock, Execution.active, hsome])
    (fun j hj => by simp [hlock, hheld, hj.symm]) ?_ hm.reachable_of_running ⟨ks ++ [k], ?_⟩
    ⟨filename, before, after, hsame ▸ hemitted, hone, ?_, fun hno => ?_, fun hne => ?_⟩
  · rintro _ ⟨⟩ j hj
    simp [LockEvent.ofExecution, hj.symm]
  · rw [Option.toList_some, List.singleton_append, passages_cons, hks, hheld, hlock]
    simp [LockEvent.atLock, inTurn]
  · rw [Option.toList_some, List.singleton_append, lockTrail_cons, htrail, hm.total, hsome, hnone,
      hafter hnone]
    simp [LockEvent.ofExecution, progressOf]
  · rw [hsome] at hno
    cases hno
  · exact absurd (hafter hnone) hne

/-- The step emits, and leaves the channel empty. -/
theorem Exclusive.moved_emitted (he : Exclusive s log) (hinvoked : s'.Invoked)
    (hm : Moves s k file file' event s') {p : TransferProgress}
    (hresult : file'.result = file.result) (happend : file'.emitted = file.emitted ++ [p])
    (hundrained : ¬ file.Drained) (hdrained' : file'.Drained) :
    Exclusive s' (event.toList ++ log) := by
  obtain ⟨ks, hks⟩ := he.passages
  have hstory := he.story k
  rw [hm.running] at hstory
  obtain ⟨filename, before, after, hemitted, hone, htrail, hafter, hdrained⟩ := hstory
  have hemits : event = some (.emitted ⟨k, .progress p⟩) := by
    rw [hm.event, hresult, happend]
    cases file.result <;> simp
  have hlock := he.lock_moved hm hresult
  -- an execution that has emitted since its return has drained its channel
  have hnil : after = [] := by
    by_contra hne
    exact hundrained (hdrained hne)
  subst hemits hnil
  rw [List.append_nil] at hemitted
  have hholder : s'.lock = some k ↔ (Execution.running file').active = true := by
    rw [hlock, he.held hm, Execution.active, hresult, Option.isNone_iff_eq_none]
  have hown : ∀ e ∈ some (LockEvent.emitted ⟨k, .progress p⟩), ∀ j, j ≠ k →
      e.ofExecution j = false := by
    rintro _ ⟨⟩ j hj
    simp [LockEvent.ofExecution, hj.symm]
  have hpassages : ∃ ks, SendPage.passages
      ((some (LockEvent.emitted ⟨k, .progress p⟩)).toList ++ log) = inTurn ks s'.lock :=
    ⟨ks, by rw [Option.toList_some, List.singleton_append, passages_of_not rfl, hks, hlock]⟩
  have htrail' : lockTrail ((some (LockEvent.emitted ⟨k, .progress p⟩)).toList ++ log) k =
      lockTrail log k ++ [.emitted ⟨k, .progress p⟩] := by
    rw [Option.toList_some, List.singleton_append, lockTrail_cons]
    simp [LockEvent.ofExecution]
  cases hcase : file.result with
  | none =>
    refine he.update hinvoked hm.executions hholder (fun j _ => by rw [hlock]) hown
      hm.reachable_of_running hpassages
      ⟨filename, before ++ [p], [], ?_, by simp, ?_, fun _ => rfl, fun h => absurd rfl h⟩
    · rw [happend, hemitted, List.append_nil]
    · rw [htrail', htrail, hm.total, hresult, hcase]
      simp [progressOf]
  | some result =>
    refine he.update hinvoked hm.executions hholder (fun j _ => by rw [hlock]) hown
      hm.reachable_of_running hpassages
      ⟨filename, before, [p], ?_, by simp, ?_, fun hno => ?_, fun _ => hdrained'⟩
    · rw [happend, hemitted]
    · rw [htrail', htrail, hm.total, hresult, hcase]
      simp [progressOf]
    · rw [hresult, hcase] at hno
      cases hno

/-- Every step of `run_sender` or of its task keeps the story of its execution. -/
theorem Exclusive.moved (he : Exclusive s log) (hinvoked : s'.Invoked)
    {a : SendFile.Action} (hk : s.executions k = some (.running file))
    (hfile : file.step a = some file')
    (hexecutions : s'.executions = Function.update s.executions k (some (.running file')))
    (hlock : s'.lock = if s.lock = some k ∧ file'.result.isSome then none else s.lock)
    (hevent : event = if file.result.isNone && file'.result.isSome then some (.left k)
      else (file'.emitted.drop file.emitted.length).head?.map
        (fun p => .emitted ⟨k, .progress p⟩)) : Exclusive s' (event.toList ++ log) := by
  have hreach := he.reachable k file hk
  have hholds := (SendFile.reachable_forwards hreach).holds
  have hreach' : (SendFile.machine file.total).Reachable file' := .step hreach trivial hfile
  have htotal : file'.total = file.total := SendFile.reachable_total hreach'
  have hm : Moves s k file file' event s' :=
    ⟨hk, hexecutions, hlock, hevent, htotal, htotal ▸ hreach'⟩
  cases (SendFile.step_spec hholds hfile).turn hholds with
  | quiet hresult hsame hkeeps => exact he.moved_quiet hinvoked hm hholds hresult hsame hkeeps
  | returned result hnone hsome hsame => exact he.moved_returned hinvoked hm hnone hsome hsame
  | emitted p hresult happend hundrained hdrained' =>
    exact he.moved_emitted hinvoked hm hresult happend hundrained hdrained'

theorem Exclusive.step (he : Exclusive s log) (hinvoked : s'.Invoked) (hst : LockStep s s' event) :
    Exclusive s' (event.toList ++ log) := by
  obtain ⟨ks, hks⟩ := he.passages
  cases hst with
  | still hexecutions hlock =>
    exact ⟨hinvoked, by rw [hexecutions, hlock]; exact he.holder,
      by rw [hexecutions]; exact he.reachable, by rw [hlock]; exact he.passages,
      by rw [hexecutions]; exact he.story⟩
  | invoked k hk hexecutions hlock =>
    have hfree : s.lock ≠ some k := by
      rw [Ne, he.holder k, hk]
      simp
    have hstory := he.story k
    rw [hk] at hstory
    exact he.update hinvoked hexecutions (by simp [hlock, hfree, Execution.active])
      (fun j _ => by rw [hlock]) (by simp) (fun _ h => by cases h) ⟨ks, hlock ▸ hks⟩ hstory
  | entered k hk hnone hexecutions hlock =>
    have hstory := he.story k
    rw [hk] at hstory
    refine he.update hinvoked hexecutions (by simp [hlock, Execution.active])
      (fun j hj => by simp [hlock, hnone, hj.symm]) ?_ (fun _ h => by cases h) ⟨ks, ?_⟩ ?_
    · rintro _ ⟨⟩ j hj
      simp [LockEvent.ofExecution, hj.symm]
    · rw [Option.toList_some, List.singleton_append, passages_cons, hks, hnone, hlock]
      simp [LockEvent.atLock, inTurn]
    · rw [Option.toList_some, List.singleton_append, lockTrail_cons,
        show lockTrail log k = [] from hstory]
      simp [LockEvent.ofExecution, ExecutionStory]
  | turnedAway k holder hk hholder hexecutions hlock =>
    have hstory := he.story k
    rw [hk] at hstory
    have hne : holder ≠ k := by
      rintro rfl
      have hactive := (he.holder holder).mp hholder
      simp [hk, Execution.active] at hactive
    refine he.update hinvoked hexecutions (by simp [hlock, hholder, hne, Execution.active])
      (fun j _ => by rw [hlock]) ?_ (fun _ h => by cases h) ⟨ks, ?_⟩ (.inl ⟨holder, hne, ?_, rfl⟩)
    · rintro _ ⟨⟩ j hj
      simp [LockEvent.ofExecution, hj.symm]
    · rw [Option.toList_some, List.singleton_append, passages_of_not rfl, hks, hlock]
    · rw [Option.toList_some, List.singleton_append, lockTrail_cons,
        show lockTrail log k = [] from hstory]
      simp [LockEvent.ofExecution]
  | failed k error hk hexecutions hlock =>
    have hstory := he.story k
    rw [hk] at hstory
    have hheld : s.lock = some k := (he.holder k).mpr (by simp [hk, Execution.active])
    refine he.update hinvoked hexecutions (by simp [hlock, Execution.active])
      (fun j hj => by simp [hlock, hheld, hj.symm]) ?_ (fun _ h => by cases h) ⟨ks ++ [k], ?_⟩
      (.inr ?_)
    · rintro _ ⟨⟩ j hj
      simp [LockEvent.ofExecution, hj.symm]
    · rw [Option.toList_some, List.singleton_append, passages_cons, hks, hheld, hlock]
      simp [LockEvent.atLock, inTurn]
    · rw [Option.toList_some, List.singleton_append, lockTrail_cons,
        show lockTrail log k = [.entered k] from hstory]
      simp [LockEvent.ofExecution]
  | started k filename total hk hexecutions hlock =>
    have hstory := he.story k
    rw [hk] at hstory
    have hheld : s.lock = some k := (he.holder k).mpr (by simp [hk, Execution.active])
    refine he.update hinvoked hexecutions ?_ (fun j _ => by rw [hlock]) ?_ ?_ ⟨ks, ?_⟩
      ⟨filename, [], [], rfl, by simp, ?_, fun _ => rfl, fun h => absurd rfl h⟩
    · rw [hlock, hheld]
      exact iff_of_true rfl rfl
    · rintro _ ⟨⟩ j hj
      simp [LockEvent.ofExecution, hj.symm]
    · rintro _ ⟨⟩
      exact .init rfl
    · rw [Option.toList_some, List.singleton_append, passages_of_not rfl, hks, hlock]
    · rw [Option.toList_some, List.singleton_append, lockTrail_cons,
        show lockTrail log k = [.entered k] from hstory]
      simp [LockEvent.ofExecution, progressOf, SendFile.result, Execution.result]
  | moved k file file' a event hk hfile hexecutions hlock hevent =>
    exact he.moved hinvoked hk hfile hexecutions hlock hevent

theorem exclusive {l : Logged SendPage LockEvent} (hl : (lockLogged typeError).Reachable l) :
    Exclusive l.state l.log := by
  refine hl.invariant (I := fun l => Exclusive l.state l.log) ?_ ?_
  · rintro ⟨s, log⟩ ⟨hs, hlog⟩
    cases hs
    cases hlog
    exact ⟨fun _ _ => rfl, fun k => (by simp), fun _ _ h => (by cases h), ⟨[], rfl⟩, fun _ => rfl⟩
  · rintro l a l' - he - hst
    obtain ⟨hst, hlog⟩ := Machine.logged_step_iff.mp hst
    obtain ⟨hst, hinvoked⟩ := lockStep_spec he.invoked hst
    exact hlog ▸ he.step hinvoked hst

/-! ## Mutual exclusion -/

theorem mem_lockTrail {e : LockEvent} (hof : e.ofExecution k = true) :
    e ∈ lockTrail log k ↔ e ∈ log := by
  simp [lockTrail, hof]

/-- The holder has entered and has not left. -/
theorem Exclusive.entered (he : Exclusive s log) (hk : s.lock = some k) :
    .entered k ∈ log ∧ .left k ∉ log := by
  rw [← mem_lockTrail (k := k) (by simp [LockEvent.ofExecution]),
    ← mem_lockTrail (k := k) (e := .left k) (by simp [LockEvent.ofExecution])]
  obtain ⟨execution, hexecution, hactive⟩ := (Option.any_eq_true _ _).mp ((he.holder k).mp hk)
  have hstory := he.story k
  rw [hexecution] at hstory
  cases execution with
  | invoked | rejected => cases hactive
  | checking => simp [show lockTrail log k = _ from hstory]
  | running file =>
    obtain ⟨filename, before, after, -, -, htrail, -, -⟩ := hstory
    rw [htrail, if_neg (by simpa [Execution.active] using hactive)]
    simp [progressOf]

/-- An execution enters once. -/
theorem Exclusive.count_entered (he : Exclusive s log) (k : Nat) : log.count (.entered k) ≤ 1 := by
  have hcount : log.count (.entered k) = (lockTrail log k).count (.entered k) := by
    rw [lockTrail, List.count_reverse, List.count_filter (by simp [LockEvent.ofExecution])]
  have hprogress : ∀ ps, (progressOf k ps).count (.entered k) = 0 := by
    intro ps
    simp [progressOf, List.count_eq_zero]
  have hstory := he.story k
  rw [hcount]
  cases hk : s.executions k with
  | none =>
    rw [hk] at hstory
    simp [show lockTrail log k = [] from hstory]
  | some execution =>
    rw [hk] at hstory
    cases execution with
    | invoked => simp [show lockTrail log k = [] from hstory]
    | checking => simp [show lockTrail log k = _ from hstory]
    | rejected error =>
      rcases hstory with ⟨holder, -, htrail, -⟩ | htrail <;> simp [htrail]
    | running file =>
      obtain ⟨filename, before, after, -, -, htrail, -, -⟩ := hstory
      rw [htrail]
      split <;> simp [hprogress]

theorem count_inTurn (ks : List Nat) (holder : Option Nat) (k : Nat) :
    (inTurn ks holder).count (.entered k) = (ks ++ holder.toList).count k := by
  rw [inTurn, List.count_append, List.count_append]
  congr 1
  · induction ks with
    | nil => rfl
    | cons j ks ih => simp [List.flatMap_cons, List.count_cons, ih]
  · cases holder <;> simp [List.count_cons]

/-- **One transfer at a time.**  In every run executions of `send_file` enter and leave
one after the other, each at most once, and the lock is with the one that has entered and
not left, the only one in its checks or in `run_sender`.  Who is turned away found
another one that had entered and not left.  An execution that has sent `send-started`
runs as in `SendFile`: that event comes first, then the progress it has emitted, all but
at most one event before it leaves. -/
theorem one_transfer_at_a_time {l : Logged SendPage LockEvent}
    (hl : (lockLogged typeError).Reachable l) :
    (∃ ks, passages l.log = inTurn ks l.state.lock ∧ (ks ++ l.state.lock.toList).Nodup) ∧
    (∀ k, l.state.lock = some k ↔
      ∃ execution, l.state.executions k = some execution ∧ execution.active = true) ∧
    (∀ post pre k holder, l.log = post ++ .turnedAway k holder :: pre →
      holder ≠ k ∧ .entered holder ∈ pre ∧ .left holder ∉ pre) ∧
    ∀ k file, l.state.executions k = some (.running file) →
      (SendFile.machine file.total).Reachable file ∧
      ∃ filename before after, before ++ after = file.emitted ∧ after.length ≤ 1 ∧
        lockTrail l.log k =
          .entered k :: .emitted ⟨k, .started filename file.total⟩ :: progressOf k before ++
            if file.result.isSome then .left k :: progressOf k after else [] := by
  have he := exclusive hl
  refine ⟨?_, fun k => ?_, fun post pre k holder hlog => ?_, fun k file hk => ?_⟩
  · obtain ⟨ks, hks⟩ := he.passages
    refine ⟨ks, hks, List.nodup_iff_count_le_one.mpr (fun k => ?_)⟩
    rw [← count_inTurn, ← hks, passages, List.count_reverse,
      List.count_filter (by simp [LockEvent.atLock])]
    exact he.count_entered k
  · rw [he.holder k, Option.any_eq_true]
  · let Q : LockEvent → List LockEvent → Prop := fun e pre => ∀ k holder,
      e = .turnedAway k holder → holder ≠ k ∧ .entered holder ∈ pre ∧ .left holder ∉ pre
    refine (?_ : Q (.turnedAway k holder) pre) k holder rfl
    refine hl.forall_event ?_ hlog
    rintro l a l' _ hl - hst hevent k holder rfl
    obtain ⟨hst, -⟩ := Machine.logged_step_iff.mp hst
    have he := exclusive hl
    have hst := (lockStep_spec he.invoked hst).1
    rw [hevent] at hst
    generalize hturned : some (LockEvent.turnedAway k holder) = event at hst
    cases hst with
    | turnedAway k' holder' hk hholder =>
      cases hturned
      refine ⟨?_, he.entered hholder⟩
      rintro rfl
      have hactive := (he.holder holder).mp hholder
      simp [hk, Execution.active] at hactive
    | moved _ _ _ _ _ _ _ _ _ hevent =>
      rw [← hturned] at hevent
      split at hevent
      · cases hevent
      · obtain ⟨_, -, heq⟩ := Option.map_eq_some_iff.mp hevent.symm
        cases heq
    | _ => cases hturned
  · have hstory := he.story k
    rw [hk] at hstory
    obtain ⟨filename, before, after, hemitted, hone, htrail, -, -⟩ := hstory
    exact ⟨he.reachable k file hk, filename, before, after, hemitted, hone, htrail⟩

/-- A second call is turned away while the first sends; the last progress of the first is
emitted when the third has entered. -/
def stragglingRun : List Action :=
  let peer : Peer := { id := "1", name := "Ticket device", ticket := "t" }
  [.useTicket peer, .sendSelected 0, .materialize 0 (.ok "a"), .useTicket peer, .sendSelected 1,
    .materialize 1 (.ok "b"), .lock 0, .lock 1, .start 0 "a" 3,
    .send 0 (.answer ⟨1 :: DownloadStatus.progressFrames [3] ++ [3], true⟩), .send 0 .read,
    .send 0 .read, .useTicket peer, .sendSelected 2, .materialize 2 (.ok "c"), .lock 2,
    .send 0 .wake, .send 0 .emit]

theorem one_transfer_at_a_time_straggling : ∃ l,
    (lockLogged id).exec ⟨{}, []⟩ stragglingRun = some l ∧
    passages l.log = [.entered 0, .left 0, .entered 2] ∧
    lockTrail l.log 0 = [.entered 0, .emitted ⟨0, .started "a" 3⟩, .left 0,
      .emitted ⟨0, .progress ⟨3, 3⟩⟩] ∧
    (l.state.lock = some 2 ↔
      ∃ execution, l.state.executions 2 = some execution ∧ execution.active = true) := by
  refine ⟨_, rfl, rfl, rfl, ?_⟩
  have hstart : (lockLogged id).Reachable ⟨{}, []⟩ := .init ⟨rfl, rfl⟩
  exact (one_transfer_at_a_time
    (hstart.exec (rfl : (lockLogged id).exec ⟨{}, []⟩ stragglingRun = some _))).2.1 2

end SendPage
end IrohShare
