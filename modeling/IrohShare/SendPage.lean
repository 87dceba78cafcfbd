import IrohShare.Discovery
import IrohShare.SendProgress

/-!
# The page that sends

`sendSelected` of `app.js` beside everything that writes `state.transfer` and
`state.selectedPeer`, and the executions of `send_file` that its calls start.  A record is
an object of its own: `state.transfer` only refers to it, and whoever waits finds there
what others have put in the meantime.

Every call of `sendSelected` has a number, and its execution of `send_file` the same one.
An execution runs as in `SendFile` once its checks are done; its events are processed in
the order they were emitted, its response at any time after its return.
-/
namespace IrohShare
open Transition

inductive SendStatus
  | sending
  | completed
  | declined
  | failed
  deriving DecidableEq, Repr

/-- What `send_file` returns. -/
def SendOutcome.status : SendOutcome → SendStatus
  | completed => .completed
  | declined => .declined

/-- A record that `state.transfer` refers to. -/
structure SendRecord where
  status : SendStatus
  filename : String
  downloaded : UInt64 := 0
  total : UInt64 := 0
  error : Option String := none
  deriving DecidableEq, Repr

/-- The object a call makes for its file, or the one that its `catch` makes if there is no
other. -/
structure RecordId where
  call : Nat
  fallback : Bool
  deriving DecidableEq, Repr

/-- `state.selectedPeer`. -/
structure SelectedPeer where
  peer : Peer
  manual : Bool
  deriving DecidableEq, Repr

/-- Where a call of `sendSelected` is: not made, turned away, in `materializeFile`, in
`send_file`, or over.  `finished` says how `send_file`, or what came before it, ended. -/
inductive SendCall
  | none
  | returned
  | materializing
  | sending
  | finished (result : Except String SendOutcome)

/-- Where an execution of `send_file` is: before its lock, in its checks, after
`send-started`, or past an error before that. -/
inductive Execution
  | invoked
  | checking
  | running (file : SendFile)
  | rejected (error : String)

/-- What the execution has returned. -/
def Execution.result : Execution → Option (Except String SendOutcome)
  | running file =>
    match file.phase with
    | .returned result => some result
    | _ => none
  | rejected error => some (.error error)
  | _ => none

inductive SendPayload
  | started (filename : String) (total : UInt64)
  | progress (progress : TransferProgress)
  deriving DecidableEq, Repr

/-- An event, and the execution that has emitted it; the payload does not say. -/
structure SendEvent where
  source : Nat
  payload : SendPayload
  deriving DecidableEq, Repr

/-- The page, the executions with the holder of `send_lock`, and the events on their way,
oldest first. -/
structure SendPage where
  selectedPeer : Option SelectedPeer := none
  transfer : Option RecordId := none
  records : RecordId → Option SendRecord := fun _ => none
  calls : Nat → SendCall := fun _ => .none
  executions : Nat → Option Execution := fun _ => none
  lock : Option Nat := none
  events : List SendEvent := []

namespace SendPage

/-- Replace call `k`. -/
def setCall (s : SendPage) (k : Nat) (call : SendCall) : SendPage :=
  { s with calls := Function.update s.calls k call }

theorem setCall_self (s : SendPage) (k : Nat) (call : SendCall) :
    (s.setCall k call).calls k = call := Function.update_self ..

theorem setCall_of_ne {s : SendPage} {j k : Nat} (h : j ≠ k) (call : SendCall) :
    (s.setCall k call).calls j = s.calls j := Function.update_of_ne h ..

/-- Replace execution `k`. -/
def setExecution (s : SendPage) (k : Nat) (execution : Execution) : SendPage :=
  { s with executions := Function.update s.executions k (some execution) }

/-- Write to a record. -/
def modify (s : SendPage) (r : RecordId) (f : SendRecord → SendRecord) : SendPage :=
  { s with records := Function.update s.records r ((s.records r).map f) }

/-- `state.transfer` refers to a new object. -/
def create (s : SendPage) (r : RecordId) (record : SendRecord) : SendPage :=
  { s with transfer := some r, records := Function.update s.records r (some record) }

/-- `state.transfer?.status === "sending"`. -/
def sending (s : SendPage) : Bool :=
  (s.transfer.bind s.records).any (fun record => record.status = .sending)

/-- The `catch` of call `k`. -/
def catchError (s : SendPage) (k : Nat) (error : String) : SendPage :=
  let fail := fun record : SendRecord => { record with status := .failed, error := some error }
  match s.transfer with
  | some r => s.modify r fail
  | none => s.create ⟨k, true⟩ { status := .failed, filename := "Selected file", error }

/-- The listeners of `send-started` and `send-progress`. -/
def listen (s : SendPage) (payload : SendPayload) : SendPage :=
  match s.transfer with
  | none => s
  | some r =>
    match payload with
    | .started filename total => s.modify r (fun record => { record with filename, total })
    | .progress progress =>
      if s.sending then
        s.modify r fun record =>
          { record with downloaded := progress.downloaded, total := progress.total }
      else s

/-- The listener of `peers`. -/
def onPeers (s : SendPage) (payload : List Peer) : SendPage :=
  match s.selectedPeer with
  | some selected =>
    if !selected.manual && !payload.any (fun peer => peer.id = selected.peer.id) then
      { s with selectedPeer := none, transfer := none }
    else s
  | none => s

/-- `sendSelected` after `materializeFile`, up to its next `await`.  `typeError` is the text
of the error that reading or writing the property of `null` throws. -/
def materialized (typeError : String → String) (s : SendPage) (k : Nat) :
    Except String String → SendPage
  | .ok filename =>
    let s := s.create ⟨k, false⟩ { status := .sending, filename }
    match s.selectedPeer with
    | some _ => (s.setCall k .sending).setExecution k .invoked
    | none =>
      (s.catchError k (typeError "ticket")).setCall k (.finished (.error (typeError "ticket")))
  | .error error => (s.catchError k error).setCall k (.finished (.error error))

/-- `sendSelected` after the response of `send_file`. -/
def settled (typeError : String → String) (s : SendPage) (k : Nat)
    (result : Except String SendOutcome) : SendPage :=
  match result with
  | .ok outcome =>
    match s.transfer with
    | some r =>
      (s.modify r (fun record => { record with status := outcome.status })).setCall k
        (.finished result)
    | none => (s.catchError k (typeError "status")).setCall k (.finished result)
  | .error error => (s.catchError k error).setCall k (.finished result)

/-- The calls, the clicks and the events of the page, and the steps of `send_file`.
`fail` is any error in its checks, `start` their end. -/
inductive Action
  | sendSelected (k : Nat)
  | materialize (k : Nat) (selected : Except String String)
  | settle (k : Nat)
  | peers (payload : List Peer)
  | select (peer : Peer)
  | useTicket (peer : Peer)
  | back
  | another
  | deliver
  | lock (k : Nat)
  | fail (k : Nat) (error : String)
  | start (k : Nat) (filename : String) (total : UInt64)
  | send (k : Nat) (a : SendFile.Action)

/-- The steps of execution `k` of `send_file`. -/
def stepExecution (s : SendPage) (k : Nat) (execution : Execution) : Action → Option SendPage
  | .lock _ =>
    match execution, s.lock with
    | .invoked, none => some { s.setExecution k .checking with lock := some k }
    | .invoked, some _ => some (s.setExecution k (.rejected "A transfer is already running"))
    | _, _ => none
  | .fail _ error =>
    match execution with
    | .checking => some { s.setExecution k (.rejected error) with lock := none }
    | _ => none
  | .start _ filename total =>
    match execution with
    | .checking =>
      some { s.setExecution k (.running { total }) with
        events := s.events ++ [⟨k, .started filename total⟩] }
    | _ => none
  | .send _ a =>
    match execution with
    | .running file =>
      (file.step a).map fun file' =>
        { s.setExecution k (.running file') with
          lock :=
            if s.lock = some k ∧ (Execution.running file').result.isSome then none else s.lock
          events := s.events ++
            (file'.emitted.drop file.emitted.length).map (fun p => ⟨k, .progress p⟩) }
    | _ => none
  | _ => none

def step (typeError : String → String) (s : SendPage) : Action → Option SendPage
  | .sendSelected k =>
    match s.calls k with
    | .none =>
      some (s.setCall k (if s.selectedPeer.isNone || s.sending then .returned else .materializing))
    | _ => none
  | .materialize k selected =>
    match s.calls k with
    | .materializing => some (materialized typeError s k selected)
    | _ => none
  | .settle k =>
    match s.calls k, (s.executions k).bind Execution.result with
    | .sending, some result => some (settled typeError s k result)
    | _, _ => none
  | .peers payload => some (s.onPeers payload)
  | .select peer =>
    -- the list of peers is on the page
    if s.selectedPeer.isNone then
      some { s with selectedPeer := some { peer, manual := false }, transfer := none }
    else none
  | .useTicket peer =>
    some { s with selectedPeer := some { peer, manual := true }, transfer := none }
  | .back =>
    if s.sending then some s else some { s with selectedPeer := none, transfer := none }
  | .another =>
    -- the button of a transfer that is over
    if s.selectedPeer.isSome && s.transfer.isSome && !s.sending then
      some { s with transfer := none }
    else none
  | .deliver =>
    match s.events with
    | event :: events => some ({ s with events }.listen event.payload)
    | [] => none
  | a@(.lock k) | a@(.fail k _) | a@(.start k ..) | a@(.send k _) =>
    (s.executions k).bind (fun execution => s.stepExecution k execution a)

def machine (typeError : String → String) : Machine SendPage Action where
  init s := s = {}
  step := step typeError

/-! ## What a step can do -/

/-- The steps again, by what they write: the state of a call, the record of a call, the
references of the page, or nothing that the page sees. -/
inductive Step (typeError : String → String) (s : SendPage) : Action → SendPage → Prop
  | call {k : Nat} {call : SendCall} :
      s.calls k = .none → call = .returned ∨ call = .materializing →
      Step typeError s (.sendSelected k) (s.setCall k call)
  | materialize {k : Nat} {selected : Except String String} :
      s.calls k = .materializing →
      Step typeError s (.materialize k selected) (materialized typeError s k selected)
  | settle {k : Nat} {result : Except String SendOutcome} :
      s.calls k = .sending → (s.executions k).bind Execution.result = some result →
      Step typeError s (.settle k) (settled typeError s k result)
  | page {a : Action} {selectedPeer : Option SelectedPeer} {transfer : Option RecordId} :
      transfer = s.transfer ∨ transfer = none → a ≠ .deliver →
      Step typeError s a { s with selectedPeer, transfer }
  | deliver {event : SendEvent} {events : List SendEvent} :
      s.events = event :: events →
      Step typeError s .deliver ({ s with events }.listen event.payload)
  | process {a : Action} {executions : Nat → Option Execution} {lock : Option Nat}
      {events : List SendEvent} : a ≠ .deliver →
      Step typeError s a { s with executions, lock, events }

variable {typeError : String → String} {s s' : SendPage} {a : Action}

theorem stepExecution_spec {k : Nat} {execution : Execution}
    (hst : s.stepExecution k execution a = some s') : Step typeError s a s' := by
  cases a <;> simp only [stepExecution, reduceCtorEq] at hst
  case lock k' => split at hst <;> cases hst <;> exact .process nofun
  case fail k' error =>
    split at hst <;> cases hst
    exact .process nofun
  case start k' filename total =>
    split at hst <;> cases hst
    exact .process nofun
  case send k' a =>
    split at hst
    · obtain ⟨file, -, rfl⟩ := Option.map_eq_some_iff.mp hst
      exact .process nofun
    · cases hst

theorem step_spec (hst : s.step typeError a = some s') : Step typeError s a s' := by
  cases a with
  | sendSelected k =>
    simp only [step] at hst
    split at hst <;> cases hst
    refine .call ‹_› ?_
    split
    · exact .inl rfl
    · exact .inr rfl
  | materialize k selected =>
    simp only [step] at hst
    split at hst <;> cases hst
    exact .materialize ‹_›
  | settle k =>
    simp only [step] at hst
    split at hst <;> cases hst
    exact .settle ‹_› ‹_›
  | peers payload =>
    cases hst
    unfold onPeers
    split
    · split
      · exact .page (.inr rfl) nofun
      · exact .page (.inl rfl) nofun
    · exact .page (.inl rfl) nofun
  | select peer =>
    simp only [step] at hst
    split at hst <;> cases hst
    exact .page (.inr rfl) nofun
  | useTicket peer =>
    cases hst
    exact .page (.inr rfl) nofun
  | back =>
    simp only [step] at hst
    split at hst <;> cases hst
    · exact .page (.inl rfl) nofun
    · exact .page (.inr rfl) nofun
  | another =>
    simp only [step] at hst
    split at hst <;> cases hst
    exact .page (.inr rfl) nofun
  | deliver =>
    simp only [step] at hst
    split at hst <;> cases hst
    exact .deliver ‹_›
  | lock k | fail k error | start k filename total | send k a =>
    obtain ⟨execution, -, hst⟩ := Option.bind_eq_some_iff.mp hst
    exact stepExecution_spec hst

/-! ## What a run is judged by -/

/-- What is written through `state.transfer` for call `k` meets no record of another
call. -/
def clear (s : SendPage) (k : Nat) : Bool := s.transfer.all (fun r => r.call = k)

/-- Something is written through `state.transfer` that refers to another record by then: an
outcome, when it is not the record the call has made; an error or an event, when it is a
record of another call, and for `send-progress` one that is still sending. -/
def misplaces (s : SendPage) : Action → Bool
  | .materialize k (.error _) => !s.clear k
  | .settle k =>
    match (s.executions k).bind Execution.result with
    | some (.ok _) => s.transfer ≠ some ⟨k, false⟩
    | _ => !s.clear k
  | .deliver =>
    match s.events with
    | ⟨source, .started ..⟩ :: _ => !s.clear source
    | ⟨source, .progress _⟩ :: _ => s.sending && !s.clear source
    | [] => false
  | _ => false

abbrev Placed (s : SendPage) (a : Action) : Prop := s.misplaces a = false

/-- A call whose `send_file` has resolved has left its outcome in its record. -/
def Kept (s : SendPage) : Prop :=
  ∀ k outcome, s.calls k = .finished (.ok outcome) →
    ∃ record, s.records ⟨k, false⟩ = some record ∧ record.status = outcome.status

/-- A record that has failed had failed before, with the same error, or is one of a call
that is being rejected. -/
def FailsOwn (s s' : SendPage) : Prop :=
  ∀ r record', s'.records r = some record' → record'.status = .failed →
    (∃ record, s.records r = some record ∧ record.status = .failed ∧
      record.error = record'.error) ∨
    ∃ error, record'.error = some error ∧ s'.calls r.call = .finished (.error error) ∧
      ∀ result, s.calls r.call ≠ .finished result

/-- A record whose file, progress or size changes is one of the call whose event is being
processed. -/
def ChangesOwn (s : SendPage) (a : Action) (s' : SendPage) : Prop :=
  ∀ r record record', s.records r = some record → s'.records r = some record' →
    (record'.filename ≠ record.filename ∨ record'.downloaded ≠ record.downloaded ∨
      record'.total ≠ record.total) →
    ∃ event events, a = .deliver ∧ s.events = event :: events ∧ event.source = r.call

end SendPage
end IrohShare
