import IrohShare.Numeral
import IrohShare.PageStart
import IrohShare.SendLock

/-!
# The window around the page that sends

What `SendPage` leaves out of `app.js`: the peers that can be clicked, where they come
from and to whom a file goes; the directory that `materializeFile` copies a file into and
the `finally` that removes it; and what `render` puts on the screen, and when.

`SendPage` runs inside: every step here is one of its steps or leaves it alone.  A click
meets what is on the screen.  `state.receive` is written by others, who render at once.

The text forms of addresses belong to `iroh_tickets`: `text` prints them, `decode` reads
them back.
-/
namespace IrohShare
open Transition

/-! ## The screen -/

/-- What `render` looks at. -/
structure View where
  displayName : String := ""
  mobile : Bool := false
  peers : List Peer := []
  receive : Option Receive := none
  selectedPeer : Option SelectedPeer := none
  transfer : Option SendRecord := none

structure Header where
  title : String
  subtitle : String
  radarHidden : Bool
  backHidden : Bool
  backDisabled : Bool
  actionsHidden : Bool
  deriving DecidableEq, Repr

/-- The content below the header.  Sizes are shown as they are, before they are rounded. -/
inductive Content
  | noDevices
  | peers (peers : List Peer)
  | picker (text : String)
  | transferring (filename : String) (downloaded total : UInt64)
  | ended (kind title detail label : String)
  | receiving (title text : String) (progress : Option (UInt64 × UInt64))
  deriving DecidableEq, Repr

structure Screen where
  header : Header
  content : Content
  deriving DecidableEq, Repr

/-- `setHeader`. -/
def setHeader (view : View) : Header :=
  let sending := view.transfer.any fun transfer => transfer.status = .sending
  match view.selectedPeer with
  | some selected =>
    { title := "Sending", subtitle := s!"To “{selected.peer.name}”", radarHidden := true
      backHidden := false, backDisabled := sending, actionsHidden := true }
  | none =>
    { title := "Nearby", subtitle := s!"As “{view.displayName}”", radarHidden := false
      backHidden := true, backDisabled := sending, actionsHidden := false }

def renderPeers (peers : List Peer) : Content := if peers = [] then .noDevices else .peers peers

def renderPicker (mobile : Bool) : Content :=
  .picker (if mobile then "Select a file from your device."
    else "Drop a file here or select one from your device.")

def renderTransfer (transfer : SendRecord) : Content :=
  match transfer.status with
  | .sending => .transferring transfer.filename transfer.downloaded transfer.total
  | .completed =>
    .ended "success" "Transfer complete" s!"“{transfer.filename}” was sent successfully."
      "Send another file"
  | .declined =>
    .ended "warning" "Transfer declined" "The receiver declined this file." "Choose another file"
  | .failed =>
    -- `||` takes the empty text for none
    let detail := match transfer.error with
      | none | some "" => "The file could not be sent."
      | some error => error
    .ended "failure" "Transfer failed" detail "Try another file"

def renderReceive (receive : Receive) : Content :=
  if receive.complete then .receiving "Received" s!"“{receive.filename}” was saved." none
  else .receiving "Receiving" receive.filename (some (receive.downloaded, receive.total))

/-- `render`. -/
def renderView (view : View) : Screen where
  header := setHeader view
  content :=
    match view.receive, view.selectedPeer, view.transfer with
    | some receive, _, _ => renderReceive receive
    | none, none, _ => renderPeers view.peers
    | none, some _, none => renderPicker view.mobile
    | none, some _, some transfer => renderTransfer transfer

/-! ## The window -/

/-- What has become of the directory that `materializeFile` makes for a call: not made; the
copy is on its way, or there; `remove` is on its way, or has succeeded, or failed.
`stranded`: `copyFile` has failed, and the call knows nothing of the directory. -/
inductive Staging
  | none
  | made
  | copied
  | removing
  | removed
  | left
  | stranded
  deriving DecidableEq, Repr

/-- The directory is there. -/
def Staging.onDisk : Staging → Bool
  | none | removed => false
  | _ => true

/-- What the system tells the page at its start. -/
structure Device where
  displayName : String
  mobile : Bool

/-- An invocation of `send_file`: its ticket, and what is on the screen then. -/
structure Invocation where
  targetTicket : String
  shown : Option Screen
  deriving DecidableEq, Repr

/-- The page, the peer tasks, and what is between them: the `peers` events on their way,
the response of `initial_state`, whether the page listens and has started.  `paths` are
the arguments of the calls of `sendSelected`; `invocations` and the tickets `entered` are
only recorded. -/
structure SendWindow where
  page : SendPage := {}
  watch : PeerWatch := {}
  listening : Bool := false
  inFlight : List (List Peer) := []
  peersRead : Option (List Peer) := none
  started : Bool := false
  displayName : String := ""
  mobile : Bool := false
  peers : List Peer := []
  receive : Option Receive := none
  shown : Option Screen := none
  paths : Nat → String := fun _ => ""
  staging : Nat → Staging := fun _ => .none
  invocations : Nat → Option Invocation := fun _ => none
  entered : List String := []

namespace SendWindow

/-- What `render` would look at now. -/
def view (s : SendWindow) : View where
  displayName := s.displayName
  mobile := s.mobile
  peers := s.peers
  receive := s.receive
  selectedPeer := s.page.selectedPeer
  transfer := s.page.transfer.bind s.page.records

def render (s : SendWindow) : SendWindow := { s with shown := some (renderView s.view) }

def setStaging (s : SendWindow) (k : Nat) (staging : Staging) : SendWindow :=
  { s with staging := Function.update s.staging k staging }

/-- The peer is on the list shown. -/
def offers (s : SendWindow) (peer : Peer) : Bool :=
  s.shown.any fun shown =>
    match shown.content with
    | .peers peers => peer ∈ peers
    | _ => false

/-- The button of a transfer that is over is shown. -/
def offersAnother (s : SendWindow) : Bool :=
  s.shown.any fun shown =>
    match shown.content with
    | .ended .. => true
    | _ => false

/-- `selectedPath.startsWith("content://")`. -/
def staged (path : String) : Bool := "content://".toList.isPrefixOf path.toList

/-- The `finally` of call `k`. -/
def cleanUp (s : SendWindow) (k : Nat) : SendWindow :=
  if s.staging k = .copied then s.setStaging k .removing else s.render

/-- The steps of the page and of everything around it.  `unstaged` is the end of
`materializeFile` without a directory, `mkdir`, `copied` and `copyFails` are its steps with
one; `process` is a step of an execution of `send_file`. -/
inductive Action
  | watch (a : PeerWatch.Action)
  | listen
  | readPeers
  | start
  | deliverPeers
  | select (peer : Peer)
  | useTicket (ticket : String)
  | back
  | another
  | choose (k : Nat) (path : String)
  | unstaged (k : Nat) (selected : Except String String)
  | mkdir (k : Nat)
  | copied (k : Nat) (filename : String)
  | copyFails (k : Nat) (error : String)
  | settle (k : Nat)
  | removed (k : Nat) (ok : Bool)
  | deliver
  | process (a : SendPage.Action)
  | receive (receive : Option Receive)

/-- The steps of `send_file`. -/
def ofExecution : SendPage.Action → Bool
  | .lock _ | .fail .. | .start .. | .send .. => true
  | _ => false

variable (text : PeerText) (decode : String → Option EndpointAddr) (device : Device)
  (typeError : String → String)

/-- `EndpointTicket::decode_string` of a text without the blanks around it. -/
def decodeTicket (ticket : String) : Option EndpointAddr :=
  decode (String.ofList (Numeral.trim isWhiteSpace ticket.toList))

/-- `validate_ticket`. -/
def validateTicket (ticket : String) : Except String Peer :=
  match decodeTicket decode ticket with
  | some addr =>
    .ok { id := text.endpointId addr.id, name := "Ticket device",
          ticket := text.endpointTicket addr }
  | none => .error "Invalid ticket"

/-- The address that execution `k` sends to. -/
def target (s : SendWindow) (k : Nat) : Option EndpointAddr :=
  (s.invocations k).bind fun invocation => decodeTicket decode invocation.targetTicket

/-- Call `k` after `materializeFile`, up to its next `await`. -/
def materialized (s : SendWindow) (k : Nat) (selected : Except String String) (page : SendPage) :
    SendWindow :=
  match selected with
  | .error _ => { s with page }.cleanUp k
  | .ok filename =>
    let s := { s with page := s.page.create ⟨k, false⟩ { status := .sending, filename } }.render
    match page.calls k, page.selectedPeer with
    | .sending, some selected =>
      { s with
        page
        invocations := Function.update s.invocations k
          (some { targetTicket := selected.peer.ticket, shown := s.shown }) }
    | _, _ => { s with page }.cleanUp k

def materialize (s : SendWindow) (k : Nat) (selected : Except String String) : Option SendWindow :=
  (s.page.step typeError (.materialize k selected)).map (materialized s k selected)

def step (s : SendWindow) : Action → Option SendWindow
  | .watch a =>
    (s.watch.step text a).map fun watch =>
      { s with
        watch
        inFlight :=
          if s.listening then s.inFlight ++ PageStart.emittedPeers s.watch a else s.inFlight }
  | .listen => some { s with listening := true }
  | .readPeers =>
    match s.listening, s.peersRead, s.watch.stored with
    | true, none, some peers => some { s with peersRead := some peers }
    | _, _, _ => none
  | .start =>
    match s.started, s.peersRead with
    | false, some peers =>
      some { s with
        started := true, peers, displayName := device.displayName, mobile := device.mobile }.render
    | _, _ => none
  | .deliverPeers =>
    match s.inFlight with
    | payload :: inFlight =>
      some { s with inFlight, peers := payload, page := s.page.onPeers payload }.render
    | [] => none
  | .select peer =>
    if s.offers peer then
      (s.page.step typeError (.select peer)).map fun page => { s with page }.render
    else none
  | .useTicket ticket =>
    match validateTicket text decode ticket with
    | .ok peer =>
      (s.page.step typeError (.useTicket peer)).map fun page =>
        { s with page, entered := s.entered ++ [ticket] }.render
    -- the dialog says so, and stays
    | .error _ => some s
  | .back =>
    (s.page.step typeError .back).map fun page =>
      if s.page.sending then { s with page } else { s with page }.render
  | .another =>
    if s.offersAnother then
      (s.page.step typeError .another).map fun page => { s with page }.render
    else none
  | .choose k path =>
    (s.page.step typeError (.sendSelected k)).map fun page =>
      { s with page, paths := Function.update s.paths k path }
  | .unstaged k selected =>
    if s.staging k = .none ∧ (staged (s.paths k) = false ∨ selected.isOk = false) then
      s.materialize typeError k selected
    else none
  | .mkdir k =>
    match s.page.calls k, s.staging k, staged (s.paths k) with
    | .materializing, .none, true => some (s.setStaging k .made)
    | _, _, _ => none
  | .copied k filename =>
    match s.staging k with
    | .made => (s.setStaging k .copied).materialize typeError k (.ok filename)
    | _ => none
  | .copyFails k error =>
    match s.staging k with
    | .made => (s.setStaging k .stranded).materialize typeError k (.error error)
    | _ => none
  | .settle k =>
    (s.page.step typeError (.settle k)).map fun page => { s with page }.cleanUp k
  | .removed k ok =>
    match s.staging k with
    | .removing => some (s.setStaging k (if ok then .removed else .left)).render
    | _ => none
  | .deliver => (s.page.step typeError .deliver).map fun page => { s with page }.render
  | .process a =>
    -- the checks of `send_file` go on only with a target
    match ofExecution a, a with
    | true, .start k _ _ =>
      if (s.target decode k).isSome then
        (s.page.step typeError a).map fun page => { s with page }
      else none
    | true, _ => (s.page.step typeError a).map fun page => { s with page }
    | false, _ => none
  | .receive receive => some { s with receive }.render

def machine : Machine SendWindow Action where
  init s := s = {}
  step := step text decode device typeError

end SendWindow

/-! ## What a step of an execution can do -/

namespace SendPage
variable {typeError : String → String} {s s' : SendPage}

theorem execution_of_step {a : SendPage.Action} (ha : SendWindow.ofExecution a = true)
    (hst : s.step typeError a = some s') :
    ∃ k execution, s.executions k = some execution ∧ s.stepExecution k execution a = some s' := by
  cases a <;> cases ha <;>
    · obtain ⟨execution, hk, hst⟩ := Option.bind_eq_some_iff.mp hst
      exact ⟨_, execution, hk, hst⟩

/-- A step of an execution changes that execution and what is behind the page. -/
theorem process_spec {a : SendPage.Action} (ha : SendWindow.ofExecution a = true)
    (hst : s.step typeError a = some s') :
    ∃ k execution execution' lock events, s.executions k = some execution ∧
      s' = { s with
        executions := Function.update s.executions k (some execution'), lock, events } ∧
      (∀ result, execution.result = some result → execution'.result = some result) := by
  obtain ⟨k, execution, hk, hst⟩ := execution_of_step ha hst
  obtain ⟨execution', lock, events, hs', hresult⟩ := stepExecution_frame hst
  exact ⟨k, execution, execution', lock, events, hk, hs', hresult⟩

end SendPage

namespace SendWindow

/-- How the directory of a call is when `materializeFile` ends: there is none, for a path
that needs none or after an error; the copy is there; or copying has failed. -/
inductive Materialized (path : String) : Staging → Staging → Except String String → Prop
  | unstaged {selected : Except String String} :
      (∀ filename, selected = .ok filename → staged path = false) →
      Materialized path .none .none selected
  | copied (filename : String) : Materialized path .made .copied (.ok filename)
  | stranded (error : String) : Materialized path .made .stranded (.error error)

/-- The steps again, with what each of them makes of the window. -/
inductive Step (text : PeerText) (decode : String → Option EndpointAddr) (device : Device)
    (typeError : String → String) (s : SendWindow) : Action → SendWindow → Prop
  | watch {a : PeerWatch.Action} {watch : PeerWatch} : s.watch.step text a = some watch →
      Step text decode device typeError s (.watch a) { s with
        watch
        inFlight :=
          if s.listening then s.inFlight ++ PageStart.emittedPeers s.watch a else s.inFlight }
  | listen : Step text decode device typeError s .listen { s with listening := true }
  | readPeers {peers : List Peer} : s.watch.stored = some peers →
      Step text decode device typeError s .readPeers { s with peersRead := some peers }
  | start {peers : List Peer} : s.peersRead = some peers →
      Step text decode device typeError s .start { s with
        started := true, peers, displayName := device.displayName, mobile := device.mobile }.render
  | deliverPeers {payload : List Peer} {inFlight : List (List Peer)} :
      s.inFlight = payload :: inFlight → Step text decode device typeError s .deliverPeers
        { s with inFlight, peers := payload, page := s.page.onPeers payload }.render
  | select {peer : Peer} : s.offers peer = true →
      Step text decode device typeError s (.select peer) { s with
        page := { s.page with
          selectedPeer := some { peer, manual := false }, transfer := none } }.render
  | useTicket {ticket : String} {peer : Peer} : validateTicket text decode ticket = .ok peer →
      Step text decode device typeError s (.useTicket ticket) { s with
        page := { s.page with selectedPeer := some { peer, manual := true }, transfer := none }
        entered := s.entered ++ [ticket] }.render
  | idle {a : Action} : Step text decode device typeError s a s
  | leave {a : Action} {selectedPeer : Option SelectedPeer} :
      selectedPeer = none ∨ selectedPeer = s.page.selectedPeer →
      Step text decode device typeError s a
        { s with page := { s.page with selectedPeer, transfer := none } }.render
  | choose {k : Nat} {path : String} {call : SendCall} : s.page.calls k = .none →
      call = .returned ∨ call = .materializing ∧ s.page.selectedPeer.isSome = true →
      Step text decode device typeError s (.choose k path)
        { s with page := s.page.setCall k call, paths := Function.update s.paths k path }
  | materialize {a : Action} {k : Nat} {selected : Except String String} {staging : Staging} :
      s.page.calls k = .materializing → Materialized (s.paths k) (s.staging k) staging selected →
      Step text decode device typeError s a (materialized (s.setStaging k staging) k selected
        (SendPage.materialized typeError s.page k selected))
  | mkdir {k : Nat} : s.page.calls k = .materializing → s.staging k = .none →
      staged (s.paths k) = true →
      Step text decode device typeError s (.mkdir k) (s.setStaging k .made)
  | settle {k : Nat} {result : Except String SendOutcome} : s.page.calls k = .sending →
      (s.page.executions k).bind Execution.result = some result →
      Step text decode device typeError s (.settle k)
        ({ s with page := SendPage.settled typeError s.page k result }.cleanUp k)
  | removed {k : Nat} {ok : Bool} : s.staging k = .removing →
      Step text decode device typeError s (.removed k ok)
        (s.setStaging k (if ok then .removed else .left)).render
  | deliver {event : SendEvent} {events : List SendEvent} : s.page.events = event :: events →
      Step text decode device typeError s .deliver
        { s with page := { s.page with events }.listen event.payload }.render
  | process {a : SendPage.Action} {page : SendPage} : ofExecution a = true →
      s.page.step typeError a = some page →
      Step text decode device typeError s (.process a) { s with page }
  | receive {receive : Option Receive} :
      Step text decode device typeError s (.receive receive) { s with receive }.render

variable {text : PeerText} {decode : String → Option EndpointAddr} {device : Device}
  {typeError : String → String} {s s' : SendWindow} {a : Action}

theorem cleanUp_cases (s : SendWindow) (k : Nat) :
    s.staging k = .copied ∧ s.cleanUp k = s.setStaging k .removing ∨
      s.staging k ≠ .copied ∧ s.cleanUp k = s.render := by
  unfold cleanUp
  split
  · exact .inl ⟨‹_›, rfl⟩
  · exact .inr ⟨‹_›, rfl⟩

/-- The window in which the file of call `k` has just been shown. -/
def showing (s : SendWindow) (k : Nat) (filename : String) : SendWindow :=
  { s with page := s.page.create ⟨k, false⟩ { status := .sending, filename } }.render

theorem materialized_sent {k : Nat} {filename : String} {page : SendPage} {peer : SelectedPeer}
    (hcall : page.calls k = .sending) (hpeer : page.selectedPeer = some peer) :
    s.materialized k (.ok filename) page = { s.showing k filename with
      page
      invocations := Function.update s.invocations k
        (some { targetTicket := peer.peer.ticket, shown := (s.showing k filename).shown }) } := by
  simp only [materialized, hcall, hpeer]
  rfl

/-- A call that is over after `materializeFile`; its file may have been shown. -/
theorem materialized_over {k : Nat} (s : SendWindow) (selected : Except String String)
    {page : SendPage} (hcall : page.calls k ≠ .sending) :
    (∃ error, selected = .error error) ∧
        s.materialized k selected page = { s with page }.cleanUp k ∨
      ∃ filename, selected = .ok filename ∧
        s.materialized k selected page = { s.showing k filename with page }.cleanUp k := by
  cases selected with
  | error error => exact .inl ⟨⟨error, rfl⟩, rfl⟩
  | ok filename =>
    refine .inr ⟨filename, rfl, ?_⟩
    simp only [materialized]
    split
    · exact absurd ‹_› hcall
    · rfl

theorem materialize_spec {k : Nat} {selected : Except String String} {staging : Staging}
    (hmaterialized : Materialized (s.paths k) (s.staging k) staging selected)
    (hst : (s.setStaging k staging).materialize typeError k selected = some s') :
    Step text decode device typeError s a s' := by
  obtain ⟨page, hpage, rfl⟩ := Option.map_eq_some_iff.mp hst
  simp only [SendPage.step, setStaging] at hpage
  split at hpage <;> cases hpage
  exact .materialize ‹_› hmaterialized

/-! ### One lemma for each kind of step -/

theorem select_spec {peer : Peer}
    (hst : s.step text decode device typeError (.select peer) = some s') :
    Step text decode device typeError s (.select peer) s' := by
  simp only [step] at hst
  split at hst
  · obtain ⟨page, hpage, rfl⟩ := Option.map_eq_some_iff.mp hst
    simp only [SendPage.step] at hpage
    split at hpage <;> cases hpage
    exact .select ‹_›
  · cases hst

theorem useTicket_spec {ticket : String}
    (hst : s.step text decode device typeError (.useTicket ticket) = some s') :
    Step text decode device typeError s (.useTicket ticket) s' := by
  simp only [step] at hst
  split at hst
  · obtain ⟨page, hpage, rfl⟩ := Option.map_eq_some_iff.mp hst
    cases hpage
    exact .useTicket ‹_›
  · cases hst
    exact .idle

theorem back_spec (hst : s.step text decode device typeError .back = some s') :
    Step text decode device typeError s .back s' := by
  simp only [step] at hst
  obtain ⟨page, hpage, rfl⟩ := Option.map_eq_some_iff.mp hst
  simp only [SendPage.step] at hpage
  split
  · rename_i hsending
    rw [if_pos hsending] at hpage
    cases hpage
    exact .idle
  · rename_i hsending
    rw [if_neg hsending] at hpage
    cases hpage
    exact .leave (.inl rfl)

theorem another_spec (hst : s.step text decode device typeError .another = some s') :
    Step text decode device typeError s .another s' := by
  simp only [step] at hst
  split at hst
  · obtain ⟨page, hpage, rfl⟩ := Option.map_eq_some_iff.mp hst
    simp only [SendPage.step] at hpage
    split at hpage <;> cases hpage
    exact .leave (.inr rfl)
  · cases hst

/-- A file is chosen: the call is turned away by the guard, or begins. -/
theorem choose_spec {k : Nat} {path : String}
    (hst : s.step text decode device typeError (.choose k path) = some s') :
    Step text decode device typeError s (.choose k path) s' := by
  simp only [step] at hst
  obtain ⟨page, hpage, rfl⟩ := Option.map_eq_some_iff.mp hst
  simp only [SendPage.step] at hpage
  split at hpage <;> cases hpage
  refine .choose ‹_› ?_
  split
  · exact .inl rfl
  · rename_i hgoes
    obtain ⟨hselected, -⟩ : s.page.selectedPeer ≠ none ∧ s.page.sending = false := by
      simpa using hgoes
    exact .inr ⟨rfl, Option.isSome_iff_ne_none.mpr hselected⟩

/-- `materializeFile` ends without a directory. -/
theorem unstaged_spec {k : Nat} {selected : Except String String}
    (hst : s.step text decode device typeError (.unstaged k selected) = some s') :
    Step text decode device typeError s (.unstaged k selected) s' := by
  simp only [step] at hst
  split at hst
  · rename_i hunstaged
    obtain ⟨hnone, hplain⟩ := hunstaged
    have hsame : s.setStaging k .none = s := by
      rw [setStaging, ← hnone, Function.update_eq_self]
    have hmaterialized : Materialized (s.paths k) (s.staging k) .none selected := by
      rw [hnone]
      refine .unstaged ?_
      rintro filename rfl
      exact hplain.resolve_right (by simp [Except.isOk, Except.toBool])
    exact materialize_spec hmaterialized (hsame.symm ▸ hst)
  · cases hst

theorem settle_spec {k : Nat} (hst : s.step text decode device typeError (.settle k) = some s') :
    Step text decode device typeError s (.settle k) s' := by
  simp only [step] at hst
  obtain ⟨page, hpage, rfl⟩ := Option.map_eq_some_iff.mp hst
  simp only [SendPage.step] at hpage
  split at hpage <;> cases hpage
  exact .settle ‹_› ‹_›

theorem deliver_spec (hst : s.step text decode device typeError .deliver = some s') :
    Step text decode device typeError s .deliver s' := by
  simp only [step] at hst
  obtain ⟨page, hpage, rfl⟩ := Option.map_eq_some_iff.mp hst
  simp only [SendPage.step] at hpage
  split at hpage <;> cases hpage
  exact .deliver ‹_›

/-- A step of an execution of `send_file`. -/
theorem execution_spec {b : SendPage.Action}
    (hst : s.step text decode device typeError (.process b) = some s') :
    Step text decode device typeError s (.process b) s' := by
  simp only [step] at hst
  split at hst
  · split at hst
    · obtain ⟨page, hpage, rfl⟩ := Option.map_eq_some_iff.mp hst
      exact .process ‹_› hpage
    · cases hst
  · obtain ⟨page, hpage, rfl⟩ := Option.map_eq_some_iff.mp hst
    exact .process ‹_› hpage
  · cases hst

theorem step_spec (hst : s.step text decode device typeError a = some s') :
    Step text decode device typeError s a s' := by
  cases a with
  | watch a =>
    obtain ⟨watch, hwatch, rfl⟩ := Option.map_eq_some_iff.mp hst
    exact .watch hwatch
  | listen =>
    cases hst
    exact .listen
  | readPeers =>
    simp only [step] at hst
    split at hst <;> cases hst
    exact .readPeers ‹_›
  | start =>
    simp only [step] at hst
    split at hst <;> cases hst
    exact .start ‹_›
  | deliverPeers =>
    simp only [step] at hst
    split at hst <;> cases hst
    exact .deliverPeers ‹_›
  | select peer => exact select_spec hst
  | useTicket ticket => exact useTicket_spec hst
  | back => exact back_spec hst
  | another => exact another_spec hst
  | choose k path => exact choose_spec hst
  | unstaged k selected => exact unstaged_spec hst
  | mkdir k =>
    simp only [step] at hst
    split at hst <;> cases hst
    exact .mkdir ‹_› ‹_› ‹_›
  | copied k filename =>
    simp only [step] at hst
    split at hst
    · rename_i hmade
      exact materialize_spec (hmade ▸ .copied filename) hst
    · cases hst
  | copyFails k error =>
    simp only [step] at hst
    split at hst
    · rename_i hmade
      exact materialize_spec (hmade ▸ .stranded error) hst
    · cases hst
  | settle k => exact settle_spec hst
  | removed k ok =>
    simp only [step] at hst
    split at hst <;> cases hst
    exact .removed ‹_›
  | deliver => exact deliver_spec hst
  | process b => exact execution_spec hst
  | receive receive =>
    cases hst
    exact .receive

/-- The only ticket there is. -/
def sampleDecode (ticket : String) : Option EndpointAddr :=
  if ticket = "a" then some ⟨⟨1⟩, ["a"]⟩ else none

end SendWindow
end IrohShare
