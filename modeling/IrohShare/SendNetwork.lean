import IrohShare.SendScreen
import IrohShare.SendTarget
import IrohShare.Transfer

/-!
# The window and the machines it sends to

`SendWindow` leaves open what `send_file` finds on the disk and who answers it.  Here each
execution works on the file that `materializeFile` has returned, makes its offer of it and
gets a connection of its own to the machine that its ticket leads to; `Transfer` says what
becomes of the offer there.

`network id k` is the machine `id` with its user, as execution `k` meets it: `iroh` lets an
address lead to no machine but the one with its id.  `run_sender` waits for the answer in
one step and reads it in the steps of `SendFile`.
-/
namespace IrohShare
open ByteStream Transition

/-- What `materializeFile` returns. -/
structure Selected where
  path : String
  filename : String
  deriving DecidableEq, Repr

/-- What one execution finds: the disk of the sender, and the connection. -/
structure Attempt where
  source : Source
  link : Link

/-- The checks of `send_file` on the file. -/
def checkFile (source : Source) (path : String) : Except String (String × UInt64) := do
  let metadata ← source.metadata path
  if !metadata.isFile then .error "The selected path is not a file"
  else
    match Path.fileName path with
    | some filename => .ok (filename, metadata.len)
    | none => .error "The selected file has no name"

/-- `run_sender` up to the answer: what arrives of it, or an error before. -/
def awaitAnswer (codec : TicketCodec) (attempt : Attempt) (recipient : Recipient)
    (filename : String) : Except String RecvStream := do
  let offer ← prepareOffer attempt.source filename
  attempt.link.connect
  match (offer.writeTo codec).run { room := attempt.link.offerRoom } with
  | .error e _ => .error e
  | .ok () send =>
    let received := receiverSide codec attempt.source.endpoint recipient attempt.link
      (attempt.link.offerArrived send)
    let sent := (received.map (fun (_, receiving) => receiving.send.sent)).getD []
    if attempt.link.late then .error "receiver did not respond within 60 seconds"
    else .ok ⟨attempt.link.answerArrived sent, attempt.link.answerFin⟩

/-- What an execution and its machine come to. -/
def Attempt.transfer (codec : TicketCodec) (attempt : Attempt) (recipient : Recipient)
    (filename : String) : Except String SendOutcome × Option (Offer × Receiving) :=
  IrohShare.transfer codec attempt.source recipient attempt.link filename

/-- A transfer ends as the answer that arrives is read. -/
theorem transfer_of_answer {codec : TicketCodec} {attempt : Attempt} {recipient : Recipient}
    {filename : String} {recv : RecvStream}
    (h : awaitAnswer codec attempt recipient filename = .ok recv) :
    (attempt.transfer codec recipient filename).1 = outcome (awaitResponse { recv }) := by
  unfold awaitAnswer at h
  unfold Attempt.transfer IrohShare.transfer
  cases hprepare : prepareOffer attempt.source filename with
  | error e => simp [hprepare, bind, Except.bind] at h
  | ok offer =>
    cases hconnect : attempt.link.connect with
    | error e => simp [hprepare, hconnect, bind, Except.bind] at h
    | ok u =>
      cases hwrite : (offer.writeTo codec).run { room := attempt.link.offerRoom } with
      | error e send => simp [hprepare, hconnect, hwrite, bind, Except.bind] at h
      | ok u send =>
        simp only [hprepare, hconnect, hwrite, bind, Except.bind] at h ⊢
        split at h
        · cases h
        · rename_i hlate
          cases h
          rw [if_neg hlate]
          rfl

/-- The window, what `materializeFile` has returned to its calls, and what their
executions have found. -/
structure SendNetwork where
  window : SendWindow := {}
  selected : Nat → Option Selected := fun _ => none
  attempts : Nat → Option Attempt := fun _ => none

namespace SendNetwork

/-- The steps of the window, but that a file is materialized as `unstaged` and `copied`
say, `send_file` has checked it on a disk, and `run_sender` has gone as far as the answer. -/
inductive Action
  | window (a : SendWindow.Action)
  | unstaged (k : Nat) (selected : Selected)
  | copied (k : Nat) (selected : Selected)
  | start (k : Nat) (source : Source)
  | offer (k : Nat) (attempt : Attempt)

/-- The window does not decide this step by itself. -/
def bound : SendWindow.Action → Bool
  | .unstaged _ (.ok _) | .copied .. | .process (.start ..) | .process (.send _ (.fail _))
  | .process (.send _ (.answer _)) => true
  | _ => false

/-- `selectedPath.startsWith("file://")`. -/
def isUrl (path : String) : Bool := "file://".toList.isPrefixOf path.toList

variable (text : PeerText) (decode : String → Option EndpointAddr) (device : Device)
  (typeError : String → String) (codec : TicketCodec) (network : EndpointId → Nat → Recipient)

/-- What execution `k` of `send_file` goes on with. -/
def sender (attempt : Attempt) (recipient : Recipient) (path : String) : SendFile.Action :=
  match awaitAnswer codec attempt recipient path with
  | .ok recv => .answer recv
  | .error e => .fail e

/-- The file of call `k` is there. -/
def select (s : SendNetwork) (k : Nat) (selected : Selected) (window : SendWindow) : SendNetwork :=
  { s with window, selected := Function.update s.selected k (some selected) }

def step (s : SendNetwork) : Action → Option SendNetwork
  | .window a =>
    if bound a then none
    else (s.window.step text decode device typeError a).map fun window => { s with window }
  | .unstaged k selected =>
    -- the path of an address is decoded, any other one is kept
    if isUrl (s.window.paths k) = true ∨ selected.path = s.window.paths k then
      (s.window.step text decode device typeError (.unstaged k (.ok selected.filename))).map
        (s.select k selected)
    else none
  | .copied k selected =>
    (s.window.step text decode device typeError (.copied k selected.filename)).map
      (s.select k selected)
  | .start k source =>
    match (s.selected k).map fun selected => checkFile source selected.path with
    | some (.ok (filename, total)) =>
      (s.window.step text decode device typeError (.process (.start k filename total))).map
        fun window => { s with window }
    | _ => none
  | .offer k attempt =>
    match s.selected k, s.window.target decode k with
    | some selected, some addr =>
      (s.window.step text decode device typeError
        (.process (.send k (sender codec attempt (network addr.id k) selected.path)))).map
        fun window => { s with
          window, attempts := Function.update s.attempts k (some attempt) }
    | _, _ => none

def machine : Machine SendNetwork Action where
  init s := s = {}
  step := step text decode device typeError codec network

/-- The page writes through `state.transfer` that refers to another record by then. -/
def misplaces (s : SendNetwork) : Action → Bool
  | .window (.unstaged k selected) => s.window.page.misplaces (.materialize k selected)
  | .window (.copyFails k error) => s.window.page.misplaces (.materialize k (.error error))
  | .window (.settle k) => s.window.page.misplaces (.settle k)
  | .window .deliver => s.window.page.misplaces .deliver
  | _ => false

abbrev Placed (s : SendNetwork) (a : Action) : Prop := s.misplaces a = false

end SendNetwork

/-! ## What an execution keeps -/

namespace SendPage
variable {typeError : String → String} {s s' : SendPage} {a : Action}

/-- An execution past its checks runs as in `SendFile`. -/
theorem reachable_running (hs : (machine typeError).Reachable s) {k : Nat} {file : SendFile}
    (hk : s.executions k = some (.running file)) :
    (SendFile.machine file.total).Reachable file := by
  obtain ⟨log, hlog⟩ := hs.logged lockEvent
  exact (exclusive hlog).reachable k file hk

theorem running_process (ha : SendWindow.ofExecution a = true)
    (hst : s.step typeError a = some s') {k : Nat} {file' : SendFile}
    (hk : s'.executions k = some (.running file')) :
    s.executions k = some (.running file') ∧ (∀ b, a ≠ .send k b) ∨ (∃ total, file' = { total }) ∨
      ∃ file b, a = .send k b ∧ s.executions k = some (.running file) ∧
        file.step b = some file' := by
  -- another execution is as it was
  have hupdate : ∀ {j : Nat} {execution : Execution},
      Function.update s.executions j (some execution) k = some (.running file') →
      j = k ∧ execution = .running file' ∨
        j ≠ k ∧ s.executions k = some (.running file') := by
    intro j execution h
    by_cases heq : k = j
    · subst heq
      rw [Function.update_self] at h
      exact .inl ⟨rfl, Option.some.inj h⟩
    · exact .inr ⟨Ne.symm heq, by rwa [Function.update_of_ne heq] at h⟩
  cases a <;> cases ha <;> obtain ⟨execution, hexecution, hst⟩ := Option.bind_eq_some_iff.mp hst <;>
    simp only [stepExecution] at hst
  case lock =>
    split at hst <;> cases hst <;> obtain ⟨-, h⟩ | ⟨-, h⟩ := hupdate hk
    · cases h
    · exact .inl ⟨h, fun b h => by cases h⟩
    · cases h
    · exact .inl ⟨h, fun b h => by cases h⟩
  case fail =>
    split at hst <;> cases hst
    obtain ⟨-, h⟩ | ⟨-, h⟩ := hupdate hk
    · cases h
    · exact .inl ⟨h, fun b h => by cases h⟩
  case start =>
    split at hst <;> cases hst
    obtain ⟨-, h⟩ | ⟨-, h⟩ := hupdate hk
    · cases h
      exact .inr (.inl ⟨_, rfl⟩)
    · exact .inl ⟨h, fun b h => by cases h⟩
  case send =>
    split at hst
    · obtain ⟨file₁, hfile, rfl⟩ := Option.map_eq_some_iff.mp hst
      obtain ⟨rfl, h⟩ | ⟨hne, h⟩ := hupdate hk
      · cases h
        exact .inr (.inr ⟨_, _, rfl, hexecution, hfile⟩)
      · refine .inl ⟨h, ?_⟩
        rintro b ⟨⟩
        exact hne rfl
    · cases hst

end SendPage

namespace SendWindow
variable {text : PeerText} {decode : String → Option EndpointAddr} {device : Device}
  {typeError : String → String} {s s' : SendWindow} {a : Action}

theorem invocations_cleanUp (s : SendWindow) (k : Nat) :
    (s.cleanUp k).invocations = s.invocations := by
  obtain ⟨-, heq⟩ | ⟨-, heq⟩ := cleanUp_cases s k <;> rw [heq] <;> rfl

/-- Only the call that is materialized invokes `send_file`. -/
theorem invocations_materialized (k : Nat) (selected : Except String String) (page : SendPage)
    {j : Nat} (hj : j ≠ k) : (s.materialized k selected page).invocations j = s.invocations j := by
  unfold materialized
  split
  · rw [invocations_cleanUp]
  · dsimp only
    split
    · exact Function.update_of_ne hj ..
    · rw [invocations_cleanUp]
      rfl

/-- The invocation of an execution stays as it was. -/
theorem invocations_step (hinvoked : s.page.Invoked)
    (hst : Step text decode device typeError s a s') {k : Nat}
    (hk : (s.page.executions k).isSome = true) : s'.invocations k = s.invocations k := by
  cases hst with
  | @materialize _ j selected staging hcall =>
    refine invocations_materialized j selected _ ?_
    rintro rfl
    rw [hinvoked k (.inr hcall)] at hk
    cases hk
  | settle => exact congrFun (invocations_cleanUp _ _) k
  | _ => rfl

/-- Where the execution after a step comes from: it was there, it begins, or it has done a
step of its own. -/
theorem running_step (hst : s.step text decode device typeError a = some s') {k : Nat}
    {file' : SendFile} (hk : s'.page.executions k = some (.running file')) :
    s.page.executions k = some (.running file') ∧ (∀ b, a ≠ .process (.send k b)) ∨
      (∃ total, file' = { total }) ∨
      ∃ file b, a = .process (.send k b) ∧ s.page.executions k = some (.running file) ∧
        file.step b = some file' := by
  by_cases hprocess : ∃ b, a = .process b
  · obtain ⟨b, rfl⟩ := hprocess
    obtain ⟨hb, page, hpage, rfl⟩ := process_step hst
    obtain ⟨hsame, hother⟩ | hbegun | ⟨file, b, rfl, hrunning, hfile⟩ :=
      SendPage.running_process hb hpage hk
    · exact .inl ⟨hsame, fun b h => hother b (Action.process.inj h)⟩
    · exact .inr (.inl hbegun)
    · exact .inr (.inr ⟨file, b, rfl, hrunning, hfile⟩)
  refine .inl ⟨?_, fun b h => hprocess ⟨_, h⟩⟩
  cases step_spec hst with
  | watch | listen | readPeers | start | select | useTicket | idle | leave | choose | mkdir
  | removed | receive => exact hk
  | deliverPeers =>
    obtain ⟨-, hexecutions, -⟩ := SendPage.onPeers_spec _
    exact hexecutions ▸ hk
  | @deliver event events =>
    obtain ⟨hexecutions, -⟩ :=
      SendPage.listen_executions (s := { s.page with events }) event.payload
    exact hexecutions ▸ hk
  | @materialize _ j selected staging =>
    rw [page_materialized] at hk
    obtain ⟨peer, filename, -, rfl, hpage⟩ | ⟨-, -, hexecutions, -⟩ :=
      SendPage.materialized_spec typeError s.page j selected
    · rw [hpage] at hk
      replace hk :
        Function.update s.page.executions j (some .invoked) k = some (.running file') := hk
      by_cases heq : k = j
      · rw [heq, Function.update_self] at hk
        cases hk
      · rwa [Function.update_of_ne heq] at hk
    · exact hexecutions ▸ hk
  | settle =>
    rw [page_cleanUp] at hk
    obtain ⟨-, hexecutions, -⟩ := SendPage.settled_spec _ _ _ _
    exact hexecutions ▸ hk
  | process => exact absurd ⟨_, rfl⟩ hprocess

end SendWindow

/-! ## What stands behind an execution -/

namespace SendNetwork
variable {text : PeerText} {decode : String → Option EndpointAddr} {device : Device}
  {typeError : String → String} {codec : TicketCodec} {network : EndpointId → Nat → Recipient}
  {s s' : SendNetwork} {a : Action}

/-- The steps again, each over the step of the window that it is. -/
inductive Step (text : PeerText) (decode : String → Option EndpointAddr) (device : Device)
    (typeError : String → String) (codec : TicketCodec) (network : EndpointId → Nat → Recipient)
    (s : SendNetwork) : Action → SendNetwork → Prop
  | window {b : SendWindow.Action} {window : SendWindow} : bound b = false →
      s.window.step text decode device typeError b = some window →
      Step text decode device typeError codec network s (.window b) { s with window }
  | selected {a : Action} {b : SendWindow.Action} {k : Nat} {selected : Selected}
      {window : SendWindow} : a = .unstaged k selected ∧ b = .unstaged k (.ok selected.filename) ∨
        a = .copied k selected ∧ b = .copied k selected.filename →
      s.window.step text decode device typeError b = some window →
      Step text decode device typeError codec network s a (s.select k selected window)
  | started {k : Nat} {source : Source} {selected : Selected} {filename : String} {total : UInt64}
      {window : SendWindow} : s.selected k = some selected →
      checkFile source selected.path = .ok (filename, total) →
      s.window.step text decode device typeError (.process (.start k filename total)) =
        some window →
      Step text decode device typeError codec network s (.start k source) { s with window }
  | offered {k : Nat} {attempt : Attempt} {selected : Selected} {addr : EndpointAddr}
      {window : SendWindow} : s.selected k = some selected → s.window.target decode k = some addr →
      s.window.step text decode device typeError
        (.process (.send k (sender codec attempt (network addr.id k) selected.path))) =
          some window →
      Step text decode device typeError codec network s (.offer k attempt)
        { s with window, attempts := Function.update s.attempts k (some attempt) }

theorem step_spec (hst : s.step text decode device typeError codec network a = some s') :
    Step text decode device typeError codec network s a s' := by
  cases a <;> simp only [step] at hst
  case window b =>
    split at hst
    · cases hst
    · obtain ⟨window, hwindow, rfl⟩ := Option.map_eq_some_iff.mp hst
      exact .window (by simpa using ‹¬ bound b = true›) hwindow
  case unstaged k selected =>
    split at hst
    · obtain ⟨window, hwindow, rfl⟩ := Option.map_eq_some_iff.mp hst
      exact .selected (.inl ⟨rfl, rfl⟩) hwindow
    · cases hst
  case copied k selected =>
    obtain ⟨window, hwindow, rfl⟩ := Option.map_eq_some_iff.mp hst
    exact .selected (.inr ⟨rfl, rfl⟩) hwindow
  case start k source =>
    split at hst
    · rename_i hchecked
      obtain ⟨selected, hselected, hcheck⟩ := Option.map_eq_some_iff.mp hchecked
      obtain ⟨window, hwindow, rfl⟩ := Option.map_eq_some_iff.mp hst
      exact .started hselected hcheck hwindow
    · cases hst
  case offer k attempt =>
    split at hst
    · obtain ⟨window, hwindow, rfl⟩ := Option.map_eq_some_iff.mp hst
      exact .offered ‹_› ‹_› hwindow
    · cases hst

/-- A file is materialized for a call that waits for it, and then the call goes on. -/
theorem calls_of_selected {b : SendWindow.Action} {k : Nat} {selected : Selected}
    {window : SendWindow}
    (haction : a = .unstaged k selected ∧ b = .unstaged k (.ok selected.filename) ∨
      a = .copied k selected ∧ b = .copied k selected.filename)
    (hwindow : s.window.step text decode device typeError b = some window) :
    s.window.page.calls k = .materializing ∧
      window.page.calls k ≠ .none ∧ window.page.calls k ≠ .materializing := by
  have hmaterialize : ∀ {t : SendWindow},
      t.materialize typeError k (.ok selected.filename) = some window →
      t.page.calls k = .materializing ∧
        window.page.calls k ≠ .none ∧ window.page.calls k ≠ .materializing := by
    intro t ht
    obtain ⟨page, hpage, rfl⟩ := Option.map_eq_some_iff.mp ht
    simp only [SendPage.step] at hpage
    split at hpage <;> cases hpage
    refine ⟨‹_›, ?_⟩
    rw [SendWindow.page_materialized]
    obtain ⟨peer, filename, -, -, hpage⟩ | ⟨-, -, -, error, hcalls⟩ :=
      SendPage.materialized_spec typeError t.page k (.ok selected.filename)
    · rw [hpage, show (((t.page.create ⟨k, false⟩ { status := .sending, filename }).setCall k
        .sending).setExecution k .invoked).calls k = .sending from SendPage.setCall_self ..]
      exact ⟨fun h => (by cases h), fun h => by cases h⟩
    · rw [hcalls, Function.update_self]
      exact ⟨fun h => (by cases h), fun h => by cases h⟩
  obtain ⟨-, rfl⟩ | ⟨-, rfl⟩ := haction <;> simp only [SendWindow.step] at hwindow <;>
    split at hwindow
  · exact hmaterialize hwindow
  · cases hwindow
  · exact hmaterialize (t := s.window.setStaging k .copied) hwindow
  · cases hwindow

theorem name_of_checkFile {source : Source} {path filename : String} {total : UInt64}
    (h : checkFile source path = .ok (filename, total)) : Path.fileName path = some filename := by
  unfold checkFile at h
  cases hmetadata : source.metadata path with
  | error e => simp [hmetadata, bind, Except.bind] at h
  | ok metadata =>
    simp only [hmetadata, bind, Except.bind] at h
    split at h
    · cases h
    · split at h <;> cases h
      assumption

/-- What the page may do under a step of the network: it writes where it may, it is given the
name of the file that is selected, and `send-started` has the name of that file. -/
structure Fits (s : SendNetwork) (a : Action) (s' : SendNetwork) (c : SendPage.Action) : Prop where
  placed : s.Placed a → s.window.page.Placed c
  filename : ∀ k filename, c = .materialize k (.ok filename) →
    ∃ selected, s'.selected k = some selected ∧ selected.filename = filename
  started : ∀ k filename total, c = .start k filename total →
    ∃ selected, s'.selected k = some selected ∧ Path.fileName selected.path = some filename

/-- A step of the network is one of the window, with a step of the page that fits. -/
theorem window_step (hst : Step text decode device typeError codec network s a s') :
    ∃ b, s.window.step text decode device typeError b = some s'.window ∧
      ∀ c, SendWindow.Under b c → s.Fits a s' c := by
  have hplaced : ∀ {c : SendPage.Action}, SendWindow.ofExecution c = true →
      s.window.page.Placed c := by
    intro c hc
    cases c <;> first | rfl | cases hc
  cases hst with
  | @window b _ hbound hwindow =>
    refine ⟨b, hwindow, fun c hc => ?_⟩
    cases hc with
    | unstaged _ selected =>
      refine ⟨id, ?_, nofun⟩
      rintro k filename ⟨⟩
      cases hbound
    | copied => cases hbound
    | process hc =>
      refine ⟨fun _ => hplaced hc, ?_, ?_⟩
      · rintro k filename rfl
        cases hc
      · rintro k filename total rfl
        cases hbound
    | copyFails | settle | deliver => exact ⟨id, nofun, nofun⟩
    | _ => exact ⟨fun _ => rfl, nofun, nofun⟩
  | @selected _ b k selected _ haction hwindow =>
    refine ⟨b, hwindow, fun c hc => ?_⟩
    have hname : ∀ k' filename, SendPage.Action.materialize k (.ok selected.filename) =
        .materialize k' (.ok filename) →
        ∃ selected', Function.update s.selected k (some selected) k' = some selected' ∧
          selected'.filename = filename := by
      rintro k' filename ⟨⟩
      exact ⟨selected, Function.update_self .., rfl⟩
    obtain ⟨-, rfl⟩ | ⟨-, rfl⟩ := haction <;> cases hc <;> exact ⟨fun _ => rfl, hname, nofun⟩
  | @started k source selected filename total _ hselected hcheck hwindow =>
    refine ⟨_, hwindow, fun c hc => ?_⟩
    cases hc
    refine ⟨fun _ => rfl, nofun, ?_⟩
    rintro k' filename' total' ⟨⟩
    exact ⟨selected, hselected, name_of_checkFile hcheck⟩
  | offered _ _ hwindow =>
    refine ⟨_, hwindow, fun c hc => ?_⟩
    cases hc
    exact ⟨fun _ => rfl, nofun, nofun⟩

/-- **The network runs the window.** -/
theorem reachable_window
    (hs : (machine text decode device typeError codec network).Reachable s) :
    (SendWindow.machine text decode device typeError).Reachable s.window := by
  refine hs.invariant
    (I := fun s => (SendWindow.machine text decode device typeError).Reachable s.window) ?_ ?_
  · rintro s rfl
    exact .init rfl
  · intro s a s' _ hwindow _ hst
    obtain ⟨b, hb, -⟩ := window_step (step_spec hst)
    exact .step hwindow trivial hb

/-- What is written where it belongs in the network, is so on the page. -/
theorem placed_page
    (hs : (machine text decode device typeError codec network).ReachableBy Placed s) :
    (SendPage.machine typeError).ReachableBy SendPage.Placed s.window.page := by
  refine hs.invariant
    (I := fun s => (SendPage.machine typeError).ReachableBy SendPage.Placed s.window.page) ?_ ?_
  · rintro s rfl
    exact .init rfl
  · intro s a s' _ hpage hplaced hst
    obtain ⟨b, hb, hunder⟩ := window_step (step_spec hst)
    rcases SendWindow.page_step hb with heq | ⟨c, hc, hstep⟩
    · rwa [heq]
    · exact .step hpage ((hunder c hc).placed hplaced) hstep

theorem reachable_invoked
    (hs : (machine text decode device typeError codec network).Reachable s) :
    s.window.page.Invoked :=
  SendPage.reachable_invoked (SendWindow.reachable_page (reachable_window hs))

/-- What is known of execution `k`: the answer that it reads is the one that its attempt has
got from the machine of its target, and before an answer there is no outcome. -/
structure Backed (decode : String → Option EndpointAddr) (codec : TicketCodec)
    (network : EndpointId → Nat → Recipient) (s : SendNetwork) (k : Nat) (file : SendFile) :
    Prop where
  offering : file.phase = .offering → file.response = none
  unanswered : file.response = none →
    file.phase = .offering ∨ ∃ e, file.phase = .returned (.error e)
  answered : ∀ recv, file.response = some recv → ∃ selected attempt addr,
    s.selected k = some selected ∧ s.attempts k = some attempt ∧
    s.window.target decode k = some addr ∧
    awaitAnswer codec attempt (network addr.id k) selected.path = .ok recv

theorem Backed.begun {k : Nat} (total : UInt64) : Backed decode codec network s k { total } :=
  ⟨fun _ => rfl, fun _ => .inl rfl, nofun⟩

theorem Backed.frame {k : Nat} {file : SendFile} (h : Backed decode codec network s k file)
    (hselected : s'.selected k = s.selected k) (hattempts : s'.attempts k = s.attempts k)
    (hinvocation : s'.window.invocations k = s.window.invocations k) :
    Backed decode codec network s' k file := by
  refine ⟨h.offering, h.unanswered, fun recv hrecv => ?_⟩
  obtain ⟨selected, attempt, addr, hselected₀, hattempt₀, htarget₀, hanswer⟩ :=
      h.answered recv hrecv
  refine ⟨selected, attempt, addr, hselected.trans hselected₀, hattempts.trans hattempt₀, ?_,
      hanswer⟩
  rw [SendWindow.target, hinvocation]
  exact htarget₀

theorem readStatus_response (file : SendFile) (recv : RecvStream) :
    (file.readStatus recv).response = file.response ∧ (file.readStatus recv).phase ≠ .offering := by
  unfold SendFile.readStatus SendFile.finish
  split
  · exact ⟨rfl, nofun⟩
  · split <;> exact ⟨rfl, nofun⟩
  · exact ⟨rfl, nofun⟩
  · exact ⟨rfl, nofun⟩

/-- An execution that has an answer reads it, and the task goes on. -/
theorem Backed.moved {k : Nat} {file file' : SendFile} {b : SendFile.Action}
    (h : Backed decode codec network s k file) (hb : bound (.process (.send k b)) = false)
    (hst : file.step b = some file') : Backed decode codec network s k file' := by
  cases b with
  | fail | answer => cases hb
  | read =>
    simp only [SendFile.step] at hst
    split at hst <;> cases hst
    rename_i recv hphase
    obtain ⟨hresponse, hoffering⟩ := readStatus_response file recv
    refine ⟨fun h => absurd h hoffering, fun hnone => ?_, hresponse ▸ h.answered⟩
    rcases h.unanswered (hresponse ▸ hnone) with hphase' | ⟨e, hphase'⟩ <;>
      rw [hphase] at hphase' <;> cases hphase'
  | wake =>
    obtain ⟨reader, -, rfl⟩ := Option.map_eq_some_iff.mp hst
    exact ⟨h.offering, h.unanswered, h.answered⟩
  | emit =>
    simp only [SendFile.step] at hst
    split at hst
    · obtain ⟨reader, -, rfl⟩ := Option.map_eq_some_iff.mp hst
      exact ⟨h.offering, h.unanswered, h.answered⟩
    · cases hst

/-- An execution gets the answer of its attempt, or fails without one. -/
theorem Backed.offered {k : Nat} {file file' : SendFile} {selected : Selected} {attempt : Attempt}
    {addr : EndpointAddr} (h : Backed decode codec network s k file)
    (hselected : s'.selected k = some selected) (hattempt : s'.attempts k = some attempt)
    (htarget : s'.window.target decode k = some addr)
    (hst : file.step (sender codec attempt (network addr.id k) selected.path) = some file') :
    Backed decode codec network s' k file' := by
  unfold sender at hst
  split at hst
  · rename_i recv hanswer
    simp only [SendFile.step] at hst
    split at hst <;> cases hst
    have hresponse : ({ file with response := some recv }.answered recv).response = some recv ∧
        ({ file with response := some recv }.answered recv).phase ≠ .offering := by
      unfold SendFile.answered SendFile.finish
      split <;> exact ⟨rfl, fun h => by cases h⟩
    refine ⟨fun h => absurd h hresponse.2, fun hnone => ?_, fun recv' hrecv => ?_⟩
    · rw [hresponse.1] at hnone
      cases hnone
    · rw [hresponse.1] at hrecv
      cases hrecv
      exact ⟨selected, attempt, addr, hselected, hattempt, htarget, hanswer⟩
  · rename_i e _
    simp only [SendFile.step] at hst
    split at hst <;> cases hst
    rename_i hphase
    have hnone : file.response = none := h.offering hphase
    refine ⟨fun h => (by cases h), fun _ => .inr ⟨e, rfl⟩, fun recv hrecv => ?_⟩
    rw [show file.response = some recv from hrecv] at hnone
    cases hnone

/-- **Every execution has its attempt behind it.** -/
theorem reachable_backed
    (hs : (machine text decode device typeError codec network).Reachable s) {k : Nat}
    {file : SendFile} (hk : s.window.page.executions k = some (.running file)) :
    Backed decode codec network s k file := by
  refine hs.invariant (I := fun s => ∀ k file, s.window.page.executions k = some (.running file) →
    Backed decode codec network s k file) ?_ ?_ k file hk
  · rintro s rfl
    nofun
  intro s a s' hs h _ hst k file' hk
  have hinvoked := reachable_invoked hs
  have hinvocation : ∀ {b : SendWindow.Action} {window : SendWindow} {file : SendFile},
      s.window.step text decode device typeError b = some window →
      s.window.page.executions k = some (.running file) →
      window.invocations k = s.window.invocations k := fun hwindow hold =>
    SendWindow.invocations_step hinvoked (SendWindow.step_spec hwindow) (by rw [hold]; rfl)
  cases step_spec hst with
  | @window b window hbound hwindow =>
    obtain ⟨hold, -⟩ | ⟨total, rfl⟩ | ⟨file, c, rfl, hold, hfile⟩ :=
      SendWindow.running_step hwindow hk
    · exact (h k file' hold).frame rfl rfl (hinvocation hwindow hold)
    · exact .begun total
    · exact ((h k file hold).moved hbound hfile).frame rfl rfl (hinvocation hwindow hold)
  | @selected _ b j selected window haction hwindow =>
    obtain ⟨hold, -⟩ | ⟨total, rfl⟩ | ⟨file, c, rfl, hold, hfile⟩ :=
      SendWindow.running_step hwindow hk
    · have hne : k ≠ j := by
        rintro rfl
        have hnone := hinvoked k (.inr (calls_of_selected haction hwindow).1)
        rw [hold] at hnone
        cases hnone
      exact (h k file' hold).frame (Function.update_of_ne hne ..) rfl (hinvocation hwindow hold)
    · exact .begun total
    · obtain ⟨-, hb⟩ | ⟨-, hb⟩ := haction <;> cases hb
  | started hselected hcheck hwindow =>
    obtain ⟨hold, -⟩ | ⟨total, rfl⟩ | ⟨file, c, hc, -⟩ := SendWindow.running_step hwindow hk
    · exact (h k file' hold).frame rfl rfl (hinvocation hwindow hold)
    · exact .begun _
    · cases hc
  | @offered j attempt selected addr window hselected htarget hwindow =>
    obtain ⟨hold, hother⟩ | ⟨total, rfl⟩ | ⟨file, c, hc, hold, hfile⟩ :=
      SendWindow.running_step hwindow hk
    · have hne : k ≠ j := by
        rintro rfl
        exact hother _ rfl
      exact (h k file' hold).frame rfl (Function.update_of_ne hne ..) (hinvocation hwindow hold)
    · exact .begun total
    · cases hc
      refine (h k file hold).offered hselected (Function.update_self ..) ?_ hfile
      rw [SendWindow.target, hinvocation hwindow hold]
      exact htarget

/-- **An outcome is that of the transfer behind it.** -/
theorem transfer_of_result
    (hs : (machine text decode device typeError codec network).Reachable s) {k : Nat}
    {outcome : SendOutcome}
    (hresult : (s.window.page.executions k).bind Execution.result = some (.ok outcome)) :
    ∃ selected attempt addr, s.selected k = some selected ∧ s.attempts k = some attempt ∧
      s.window.target decode k = some addr ∧
      (attempt.transfer codec (network addr.id k) selected.path).1 = .ok outcome := by
  obtain ⟨execution, hk, hresult⟩ := Option.bind_eq_some_iff.mp hresult
  cases execution with
  | running file =>
    have hphase : file.phase = .returned (.ok outcome) := SendFile.result_eq_some.mp hresult
    have hbacked := reachable_backed hs hk
    have hdecodes := SendFile.reachable_decodes (SendPage.reachable_running
      (SendWindow.reachable_page (reachable_window hs)) hk)
    rw [SendFile.Decodes, hphase] at hdecodes
    rcases hdecodes with ⟨hnone, -⟩ | ⟨recv, hrecv, hread, -⟩
    · rcases hbacked.unanswered hnone with h | ⟨e, h⟩ <;> rw [hphase] at h <;> cases h
    · obtain ⟨selected, attempt, addr, hselected, hattempt, htarget, hanswer⟩ :=
        hbacked.answered recv hrecv
      exact ⟨selected, attempt, addr, hselected, hattempt, htarget,
        (transfer_of_answer hanswer).trans hread⟩
  | invoked | checking | rejected => cases hresult

end SendNetwork
end IrohShare
