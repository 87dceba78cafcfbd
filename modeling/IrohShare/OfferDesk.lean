import Mathlib.Logic.Function.Basic
import IrohShare.Transition
import IrohShare.Notify
import IrohShare.Approval

/-!
# The receiver behind the interface

The tasks of the interface mode and what they share: one handler of
`OfferProtocol::accept` for each connection, the queue of the offer channel, the
loop of `forward_offers` with its slot `pending_offer`, the notification
`offer_answered`, and the calls of `respond_offer`.  A step is one action of one
task up to its next await point or its next access to what is shared; every choice
of the scheduler, the timers, the peers and the user is in the label.

A oneshot sender is named by the handler that holds its receiver.  The lock of
`pending_offer` is never poisoned, since no holder of it can panic.
-/
namespace IrohShare
open Transition Notification

/-! ## The parts -/

abbrev HandlerId := Nat
abbrev CallId := Nat

/-- Where a handler is in `OfferProtocol::accept`.  `elapsed` is the moment between
the end of the wait and the drop of the receiver. -/
inductive HandlerPhase
  | refused
  | offering
  | waiting
  | elapsed
  | accepted (downloadDir : String)
  | downloading (downloadDir : String)
  | declining
  | failed
  deriving DecidableEq, Repr

/-- A handler: its connection's `remote_id`, the offer it read, and the receiving end
of its oneshot channel, a value and whether the sender is gone. -/
structure Handler where
  phase : HandlerPhase
  remote : EndpointId
  offer : Offer
  slot : Option OfferDecision := none
  senderDropped : Bool := false
  deriving DecidableEq, Repr

/-- The receiver of the oneshot channel has not been dropped. -/
def Handler.listening (handler : Handler) : Bool :=
  match handler.phase with
  | .offering | .waiting | .elapsed => true
  | _ => false

/-- The handler is past `offer_tx.send`. -/
def Handler.enqueued (handler : Handler) : Prop :=
  handler.phase ≠ .refused ∧ handler.phase ≠ .offering

structure OfferRequest where
  offer : Offer
  decision : HandlerId
  deriving DecidableEq, Repr

structure PendingOffer where
  view : IncomingOffer
  decision : HandlerId
  deriving DecidableEq, Repr

/-- Where `forward_offers` is: at `recv`, before it stores the offer, before it emits
it, before it waits, in the wait, after the wait expired, and before it emits that. -/
inductive Forwarder
  | receiving
  | storing (pending : PendingOffer)
  | emitting (view : IncomingOffer)
  | entering (id : Nat)
  | waiting (id : Nat)
  | expired (id : Nat)
  | retiring (id : Nat)
  | panicked
  deriving DecidableEq, Repr

/-- The answers of the system to `respond_offer`. -/
structure Directories where
  documentDir : Except String String
  createDirAll : String → Except String Unit
  isDir : String → Bool

/-- The decision `respond_offer` computes before it looks at the offer. -/
def resolveDecision (dirs : Directories) (accept : Bool) (downloadDir : Option String) :
    Except String OfferDecision :=
  if accept then do
    let directory ← match downloadDir with
      | some path => .ok path
      | none => dirs.documentDir
    dirs.createDirAll directory
    if dirs.isDir directory then .ok (.accept directory)
    else .error "The download location is not a directory"
  else .ok .decline

/-- A system on which every directory can be made. -/
def openDirectories : Directories where
  documentDir := .ok "/documents"
  createDirAll _ := .ok ()
  isDir _ := true

/-- A call of `respond_offer`: not made, resolved, holding the offer it took, about to
notify, returned after taking the offer `id`, or returned without taking one. -/
inductive Call
  | none
  | resolved (id : Nat) (decision : OfferDecision)
  | taken (pending : PendingOffer) (decision : OfferDecision)
  | sent (id : Nat) (delivered : Bool)
  | returned (id : Nat) (result : Except String Unit)
  | failed (error : String)

/-- The offer a call has removed from `pending_offer`. -/
def Call.removed : Call → Option Nat
  | taken pending _ => some pending.view.id
  | sent id _ => some id
  | returned id _ => some id
  | _ => Option.none

/-- The result of a call that is over. -/
def Call.result : Call → Option (Except String Unit)
  | returned _ result => some result
  | failed error => some (.error error)
  | _ => Option.none

/-- The state of the receiving process in the interface mode. -/
structure Desk where
  handlers : HandlerId → Option Handler
  queue : List OfferRequest
  nextId : Nat
  forwarder : Forwarder
  pending : Option PendingOffer
  answered : Notify Nat
  calls : CallId → Call

namespace Desk

/-- The state before the first connection. -/
def start : Desk where
  handlers _ := none
  queue := []
  nextId := 0
  forwarder := .receiving
  pending := none
  answered := {}
  calls _ := .none

/-- The room in the offer channel. -/
def queueCapacity : Nat := 10

/-- Replace handler `h`. -/
def setHandler (s : Desk) (h : HandlerId) (handler : Handler) : Desk :=
  { s with handlers := Function.update s.handlers h (some handler) }

/-- Replace call `c`. -/
def setCall (s : Desk) (c : CallId) (call : Call) : Desk :=
  { s with calls := Function.update s.calls c call }

/-- The oneshot senders for the handlers of `hs` are dropped unused. -/
def dropSenders (handlers : HandlerId → Option Handler) (hs : List HandlerId) :
    HandlerId → Option Handler := fun h =>
  if h ∈ hs then (handlers h).map (fun handler => { handler with senderDropped := true })
  else handlers h

/-- `oneshot::Sender::send` succeeds if the receiver is still there. -/
def deliverable (handlers : HandlerId → Option Handler) (h : HandlerId) : Bool :=
  match handlers h with
  | some handler => handler.listening
  | none => false

/-- `oneshot::Sender::send` puts the value in the channel if the receiver is still
there. -/
def deliver (handlers : HandlerId → Option Handler) (h : HandlerId) (decision : OfferDecision) :
    HandlerId → Option Handler := fun h' =>
  if h' = h then
    (handlers h).map (fun handler =>
      if handler.listening then { handler with slot := some decision } else handler)
  else handlers h'

/-! ## The steps -/

inductive Action
  | connect (h : HandlerId) (remote : EndpointId) (offer : Offer)
  | enqueue (h : HandlerId)
  | enqueueFails (h : HandlerId)
  | decide (h : HandlerId)
  | decisionLost (h : HandlerId)
  | elapse (h : HandlerId)
  | dropReceiver (h : HandlerId)
  | download (h : HandlerId)
  | acceptFails (h : HandlerId)
  | recv (peers : List (String × EndpointAddr))
  | store
  | emitIncoming
  | enterWait
  | wake
  | expire
  | takeExpired
  | emitExpired
  | respond (c : CallId) (id : Nat) (accept : Bool) (downloadDir : Option String)
      (dirs : Directories)
  | take (c : CallId)
  | send (c : CallId)
  | notify (c : CallId)

/-- The phase of a handler that has received a decision. -/
def afterDecision : OfferDecision → HandlerPhase
  | .accept downloadDir => .accepted downloadDir
  | .decline => .declining

/-- The steps of handler `h` after it connected. -/
def stepHandler (s : Desk) (h : HandlerId) (handler : Handler) : Action → Option Desk
  | .enqueue _ =>
    if handler.phase = .offering ∧ s.queue.length < queueCapacity ∧ s.forwarder ≠ .panicked then
      some { s.setHandler h { handler with phase := .waiting } with
        queue := s.queue ++ [⟨handler.offer, h⟩] }
    else none
  | .enqueueFails _ =>
    if handler.phase = .offering ∧ s.forwarder = .panicked then
      some (s.setHandler h { handler with phase := .failed })
    else none
  | .decide _ =>
    match handler.slot with
    | some decision =>
      if handler.phase = .waiting then
        some (s.setHandler h { handler with phase := afterDecision decision, slot := none })
      else none
    | none => none
  | .decisionLost _ =>
    if handler.phase = .waiting ∧ handler.slot = none ∧ handler.senderDropped then
      some (s.setHandler h { handler with phase := .declining })
    else none
  | .elapse _ =>
    -- `timeout` looks at the channel before it looks at the timer
    if handler.phase = .waiting ∧ handler.slot = none ∧ !handler.senderDropped then
      some (s.setHandler h { handler with phase := .elapsed })
    else none
  | .dropReceiver _ =>
    if handler.phase = .elapsed then
      some (s.setHandler h { handler with phase := .declining })
    else none
  | .download _ =>
    match handler.phase with
    | .accepted downloadDir =>
      some (s.setHandler h { handler with phase := .downloading downloadDir })
    | _ => none
  | .acceptFails _ =>
    match handler.phase with
    | .accepted _ => some (s.setHandler h { handler with phase := .failed })
    | _ => none
  | _ => none

/-- The steps of `forward_offers`.  `next_id += 1` is checked: it panics at the bound
of `u64`, and the offers it had not forwarded are dropped with their senders. -/
def stepForwarder (s : Desk) : Action → Option Desk
  | .recv peers =>
    match s.forwarder, s.queue with
    | .receiving, request :: queue =>
      if s.nextId + 1 < UInt64.size then
        some { s with
          queue
          nextId := s.nextId + 1
          forwarder := .storing
            ⟨IncomingOffer.new (s.nextId + 1) peers request.offer, request.decision⟩ }
      else
        some { s with
          handlers := dropSenders s.handlers ((request :: queue).map OfferRequest.decision)
          queue := []
          forwarder := .panicked }
    | _, _ => none
  | .store =>
    match s.forwarder with
    | .storing pending =>
      some { s with
        handlers := dropSenders s.handlers (s.pending.toList.map PendingOffer.decision)
        pending := some pending
        forwarder := .emitting pending.view }
    | _ => none
  | .emitIncoming =>
    match s.forwarder with
    | .emitting view => some { s with forwarder := .entering view.id }
    | _ => none
  | .enterWait =>
    match s.forwarder with
    | .entering id => some { s with forwarder := .waiting id, answered := s.answered.enter }
    | _ => none
  | .wake =>
    match s.forwarder, s.answered.waiter with
    | .waiting _, .woken _ => some { s with forwarder := .receiving, answered := s.answered.leave }
    | _, _ => none
  | .expire =>
    match s.forwarder, s.answered.waiter with
    | .waiting id, .parked => some { s with forwarder := .expired id, answered := s.answered.leave }
    | _, _ => none
  | .takeExpired =>
    match s.forwarder with
    -- whatever the slot holds by now is declined, and the event names this iteration
    | .expired id =>
      match s.pending with
      | some pending =>
        some { s with
          handlers := deliver s.handlers pending.decision .decline
          pending := none
          forwarder := .retiring id }
      | none => some { s with forwarder := .retiring id }
    | _ => none
  | .emitExpired =>
    match s.forwarder with
    | .retiring _ => some { s with forwarder := .receiving }
    | _ => none
  | _ => none

/-- The steps of `respond_offer`. -/
def stepCall (s : Desk) : Action → Option Desk
  | .respond c id accept downloadDir dirs =>
    match s.calls c with
    | .none =>
      match resolveDecision dirs accept downloadDir with
      | .ok decision => some (s.setCall c (.resolved id decision))
      | .error error => some (s.setCall c (.failed error))
    | _ => none
  | .take c =>
    match s.calls c with
    | .resolved id decision =>
      match s.pending with
      | some pending =>
        if pending.view.id = id then
          some { s.setCall c (.taken pending decision) with pending := none }
        else some (s.setCall c (.failed "This offer is no longer available"))
      | none => some (s.setCall c (.failed "This offer is no longer available"))
    | _ => none
  | .send c =>
    match s.calls c with
    | .taken pending decision =>
      some { s with
        handlers := deliver s.handlers pending.decision decision
        calls := Function.update s.calls c
          (.sent pending.view.id (deliverable s.handlers pending.decision)) }
    | _ => none
  | .notify c =>
    match s.calls c with
    | .sent id delivered =>
      some { s.setCall c (.returned id
          (if delivered then .ok () else .error "The sender stopped waiting")) with
        answered := s.answered.notifyOne id }
    | _ => none
  | _ => none

/-- One step of the process. -/
def step (s : Desk) : Action → Option Desk
  | .connect h remote offer =>
    match s.handlers h with
    | some _ => none
    | none =>
      let phase := if offer.ticket.addr.id ≠ remote then .refused else .offering
      some (s.setHandler h { phase, remote, offer })
  | a@(.enqueue h) | a@(.enqueueFails h) | a@(.decide h) | a@(.decisionLost h) | a@(.elapse h)
  | a@(.dropReceiver h) | a@(.download h) | a@(.acceptFails h) =>
    (s.handlers h).bind (fun handler => s.stepHandler h handler a)
  | a@(.respond ..) | a@(.take _) | a@(.send _) | a@(.notify _) => s.stepCall a
  | a => s.stepForwarder a

/-- The process as a machine. -/
def machine : Machine Desk Action where
  init s := s = start
  step := step

/-! ## What a run is judged by -/

/-- How an offer left the slot: a call took it, its wait expired, or the next offer was
stored over it. -/
inductive Retirement
  | call (c : CallId)
  | expiry (iteration : Nat)
  | displaced
  deriving DecidableEq, Repr

/-- The events of a run.  `answered id tag`: the wait of offer `id` was ended by the
notification raised for offer `tag`. -/
inductive Event
  | connected (h : HandlerId) (remote : EndpointId) (offer : Offer)
  | assigned (id : Nat) (h : HandlerId)
  | resolved (c : CallId) (id : Nat) (decision : OfferDecision)
  | retired (id : Nat) (h : HandlerId) (cause : Retirement)
  | answered (id tag : Nat)
  | decided (h : HandlerId) (decision : OfferDecision)
  | gaveUp (h : HandlerId)
  | download (h : HandlerId) (downloadDir : String) (offer : Offer)
  deriving DecidableEq, Repr

/-- The event of a step. -/
def event (s : Desk) : Action → Option Event
  | .connect h remote offer => some (.connected h remote offer)
  | .decide h => (s.handlers h).bind (fun handler => handler.slot.map (.decided h))
  | .decisionLost h => some (.gaveUp h)
  | .elapse h => some (.gaveUp h)
  | .download h => (s.handlers h).bind (fun handler =>
    match handler.phase with
    | .accepted downloadDir => some (.download h downloadDir handler.offer)
    | _ => none)
  | .recv _ =>
    if s.nextId + 1 < UInt64.size then
      s.queue.head?.map (fun request => .assigned (s.nextId + 1) request.decision)
    else none
  | .store => s.pending.map (fun pending => .retired pending.view.id pending.decision .displaced)
  | .wake =>
    match s.forwarder, s.answered.waiter with
    | .waiting id, .woken tag => some (.answered id tag)
    | _, _ => none
  | .takeExpired =>
    match s.forwarder with
    | .expired id =>
      s.pending.map (fun pending => .retired pending.view.id pending.decision (.expiry id))
    | _ => none
  | .respond c id accept downloadDir dirs =>
    match resolveDecision dirs accept downloadDir with
    | .ok decision => some (.resolved c id decision)
    | .error _ => none
  | .take c =>
    match s.calls c, s.pending with
    | .resolved id _, some pending =>
      if pending.view.id = id then some (.retired id pending.decision (.call c)) else none
    | _, _ => none
  | _ => none

/-- The process with the log of its events. -/
def logged : Machine (Logged Desk Event) Action := machine.logged event

/-! ## What a step can do -/

/-- The steps again, one constructor for each thing that can happen: the guard, the
event, and the state after it. -/
inductive Step (s : Desk) : Action → Option Event → Desk → Prop
  | connect {h : HandlerId} {remote : EndpointId} {offer : Offer} :
      s.handlers h = none →
      Step s (.connect h remote offer) (some (.connected h remote offer)) (s.setHandler h
        { phase := if offer.ticket.addr.id ≠ remote then .refused else .offering, remote, offer })
  | enqueue {h : HandlerId} {handler : Handler} :
      s.handlers h = some handler → handler.phase = .offering →
      s.queue.length < queueCapacity → s.forwarder ≠ .panicked →
      Step s (.enqueue h) none { s.setHandler h { handler with phase := .waiting } with
        queue := s.queue ++ [⟨handler.offer, h⟩] }
  | enqueueFails {h : HandlerId} {handler : Handler} :
      s.handlers h = some handler → handler.phase = .offering → s.forwarder = .panicked →
      Step s (.enqueueFails h) none (s.setHandler h { handler with phase := .failed })
  | decide {h : HandlerId} {handler : Handler} {decision : OfferDecision} :
      s.handlers h = some handler → handler.phase = .waiting → handler.slot = some decision →
      Step s (.decide h) (some (.decided h decision))
        (s.setHandler h { handler with phase := afterDecision decision, slot := none })
  | decisionLost {h : HandlerId} {handler : Handler} :
      s.handlers h = some handler → handler.phase = .waiting → handler.slot = none →
      handler.senderDropped = true →
      Step s (.decisionLost h) (some (.gaveUp h))
        (s.setHandler h { handler with phase := .declining })
  | elapse {h : HandlerId} {handler : Handler} :
      s.handlers h = some handler → handler.phase = .waiting → handler.slot = none →
      handler.senderDropped = false →
      Step s (.elapse h) (some (.gaveUp h)) (s.setHandler h { handler with phase := .elapsed })
  | dropReceiver {h : HandlerId} {handler : Handler} :
      s.handlers h = some handler → handler.phase = .elapsed →
      Step s (.dropReceiver h) none (s.setHandler h { handler with phase := .declining })
  | download {h : HandlerId} {handler : Handler} {downloadDir : String} :
      s.handlers h = some handler → handler.phase = .accepted downloadDir →
      Step s (.download h) (some (.download h downloadDir handler.offer))
        (s.setHandler h { handler with phase := .downloading downloadDir })
  | acceptFails {h : HandlerId} {handler : Handler} {downloadDir : String} :
      s.handlers h = some handler → handler.phase = .accepted downloadDir →
      Step s (.acceptFails h) none (s.setHandler h { handler with phase := .failed })
  | recv {peers : List (String × EndpointAddr)} {request : OfferRequest}
      {queue : List OfferRequest} :
      s.forwarder = .receiving → s.queue = request :: queue → s.nextId + 1 < UInt64.size →
      Step s (.recv peers) (some (.assigned (s.nextId + 1) request.decision)) { s with
        queue
        nextId := s.nextId + 1
        forwarder := .storing
          ⟨IncomingOffer.new (s.nextId + 1) peers request.offer, request.decision⟩ }
  | overflow {peers : List (String × EndpointAddr)} {request : OfferRequest}
      {queue : List OfferRequest} :
      s.forwarder = .receiving → s.queue = request :: queue → ¬ s.nextId + 1 < UInt64.size →
      Step s (.recv peers) none { s with
        handlers := dropSenders s.handlers ((request :: queue).map OfferRequest.decision)
        queue := []
        forwarder := .panicked }
  | store {pending : PendingOffer} :
      s.forwarder = .storing pending → s.pending = none →
      Step s .store none { s with pending := some pending, forwarder := .emitting pending.view }
  | displace {pending old : PendingOffer} :
      s.forwarder = .storing pending → s.pending = some old →
      Step s .store (some (.retired old.view.id old.decision .displaced)) { s with
        handlers := dropSenders s.handlers [old.decision]
        pending := some pending
        forwarder := .emitting pending.view }
  | emitIncoming {view : IncomingOffer} :
      s.forwarder = .emitting view →
      Step s .emitIncoming none { s with forwarder := .entering view.id }
  | enterWait {id : Nat} :
      s.forwarder = .entering id →
      Step s .enterWait none { s with forwarder := .waiting id, answered := s.answered.enter }
  | wake {id tag : Nat} :
      s.forwarder = .waiting id → s.answered.waiter = .woken tag →
      Step s .wake (some (.answered id tag))
        { s with forwarder := .receiving, answered := s.answered.leave }
  | expire {id : Nat} :
      s.forwarder = .waiting id → s.answered.waiter = .parked →
      Step s .expire none { s with forwarder := .expired id, answered := s.answered.leave }
  | takeExpired {id : Nat} {pending : PendingOffer} :
      s.forwarder = .expired id → s.pending = some pending →
      Step s .takeExpired (some (.retired pending.view.id pending.decision (.expiry id))) { s with
        handlers := deliver s.handlers pending.decision .decline
        pending := none
        forwarder := .retiring id }
  | skipExpired {id : Nat} :
      s.forwarder = .expired id → s.pending = none →
      Step s .takeExpired none { s with forwarder := .retiring id }
  | emitExpired {id : Nat} :
      s.forwarder = .retiring id →
      Step s .emitExpired none { s with forwarder := .receiving }
  | respond {c : CallId} {id : Nat} {accept : Bool} {downloadDir : Option String}
      {dirs : Directories} {decision : OfferDecision} :
      s.calls c = .none → resolveDecision dirs accept downloadDir = .ok decision →
      Step s (.respond c id accept downloadDir dirs) (some (.resolved c id decision))
        (s.setCall c (.resolved id decision))
  | respondFails {c : CallId} {id : Nat} {accept : Bool} {downloadDir : Option String}
      {dirs : Directories} {error : String} :
      s.calls c = .none → resolveDecision dirs accept downloadDir = .error error →
      Step s (.respond c id accept downloadDir dirs) none (s.setCall c (.failed error))
  | take {c : CallId} {decision : OfferDecision} {pending : PendingOffer} :
      s.calls c = .resolved pending.view.id decision → s.pending = some pending →
      Step s (.take c) (some (.retired pending.view.id pending.decision (.call c)))
        { s.setCall c (.taken pending decision) with pending := none }
  | takeFails {c : CallId} {id : Nat} {decision : OfferDecision} :
      s.calls c = .resolved id decision →
      (∀ pending, s.pending = some pending → pending.view.id ≠ id) →
      Step s (.take c) none (s.setCall c (.failed "This offer is no longer available"))
  | send {c : CallId} {decision : OfferDecision} {pending : PendingOffer} :
      s.calls c = .taken pending decision →
      Step s (.send c) none { s with
        handlers := deliver s.handlers pending.decision decision
        calls := Function.update s.calls c
          (.sent pending.view.id (deliverable s.handlers pending.decision)) }
  | notify {c : CallId} {id : Nat} {delivered : Bool} :
      s.calls c = .sent id delivered →
      Step s (.notify c) none { s.setCall c (.returned id
          (if delivered then .ok () else .error "The sender stopped waiting")) with
        answered := s.answered.notifyOne id }

@[simp] theorem dropSenders_nil (handlers : HandlerId → Option Handler) :
    dropSenders handlers [] = handlers := by
  funext h
  simp [dropSenders]

theorem stepHandler_spec {s s' : Desk} {h : HandlerId} {handler : Handler} {a : Action}
    (hh : s.handlers h = some handler)
    (ha : a = .enqueue h ∨ a = .enqueueFails h ∨ a = .decide h ∨ a = .decisionLost h ∨
      a = .elapse h ∨ a = .dropReceiver h ∨ a = .download h ∨ a = .acceptFails h)
    (hst : s.stepHandler h handler a = some s') : Step s a (s.event a) s' := by
  rcases ha with rfl | rfl | rfl | rfl | rfl | rfl | rfl | rfl <;>
    simp only [stepHandler] at hst
  · obtain ⟨⟨hphase, hroom, halive⟩, ⟨⟩⟩ := Option.ite_none_right_eq_some.mp hst
    exact .enqueue hh hphase hroom halive
  · obtain ⟨⟨hphase, hpanicked⟩, ⟨⟩⟩ := Option.ite_none_right_eq_some.mp hst
    exact .enqueueFails hh hphase hpanicked
  · split at hst
    · rename_i decision hslot
      obtain ⟨hphase, ⟨⟩⟩ := Option.ite_none_right_eq_some.mp hst
      have hevent : s.event (.decide h) = some (.decided h decision) := by simp [event, hh, hslot]
      exact hevent ▸ .decide hh hphase hslot
    · cases hst
  · obtain ⟨⟨hphase, hslot, hdropped⟩, ⟨⟩⟩ := Option.ite_none_right_eq_some.mp hst
    exact .decisionLost hh hphase hslot hdropped
  · obtain ⟨⟨hphase, hslot, hdropped⟩, ⟨⟩⟩ := Option.ite_none_right_eq_some.mp hst
    exact .elapse hh hphase hslot (by simpa using hdropped)
  · obtain ⟨hphase, ⟨⟩⟩ := Option.ite_none_right_eq_some.mp hst
    exact .dropReceiver hh hphase
  · split at hst
    · rename_i downloadDir hphase
      cases hst
      have hevent : s.event (.download h) = some (.download h downloadDir handler.offer) := by
        simp [event, hh, hphase]
      exact hevent ▸ .download hh hphase
    · cases hst
  · split at hst
    · cases hst
      exact .acceptFails hh ‹_›
    · cases hst

theorem stepForwarder_spec {s s' : Desk} {a : Action} (hst : s.stepForwarder a = some s') :
    Step s a (s.event a) s' := by
  cases a <;> simp only [stepForwarder, reduceCtorEq] at hst
  case recv peers =>
    split at hst
    · rename_i request queue hforwarder hqueue
      split at hst
      · rename_i hbound
        cases hst
        have hevent : s.event (.recv peers) = some (.assigned (s.nextId + 1) request.decision) := by
          simp only [event, if_pos hbound, hqueue, List.head?_cons, Option.map_some]
        exact hevent ▸ .recv hforwarder hqueue hbound
      · rename_i hbound
        cases hst
        have hevent : s.event (.recv peers) = none := by simp only [event, if_neg hbound]
        exact hevent ▸ .overflow hforwarder hqueue hbound
    · cases hst
  case store =>
    split at hst
    · rename_i pending hforwarder
      cases hst
      cases hpending : s.pending with
      | none => simpa [event, hpending] using Step.store hforwarder hpending
      | some old => simpa [event, hpending] using Step.displace hforwarder hpending
    · cases hst
  case emitIncoming =>
    split at hst
    · cases hst
      exact .emitIncoming ‹_›
    · cases hst
  case enterWait =>
    split at hst
    · cases hst
      exact .enterWait ‹_›
    · cases hst
  case wake =>
    split at hst
    · rename_i id tag hforwarder hwaiter
      cases hst
      have hevent : s.event .wake = some (.answered id tag) := by simp [event, hforwarder, hwaiter]
      exact hevent ▸ .wake hforwarder hwaiter
    · cases hst
  case expire =>
    split at hst
    · cases hst
      exact .expire ‹_› ‹_›
    · cases hst
  case takeExpired =>
    split at hst
    · rename_i id hforwarder
      split at hst
      · rename_i pending hpending
        cases hst
        have hevent : s.event .takeExpired =
            some (.retired pending.view.id pending.decision (.expiry id)) := by
          simp [event, hforwarder, hpending]
        exact hevent ▸ .takeExpired hforwarder hpending
      · rename_i hpending
        cases hst
        have hevent : s.event .takeExpired = none := by simp [event, hforwarder, hpending]
        exact hevent ▸ .skipExpired hforwarder hpending
    · cases hst
  case emitExpired =>
    split at hst
    · cases hst
      exact .emitExpired ‹_›
    · cases hst

theorem stepCall_spec {s s' : Desk} {a : Action} (hst : s.stepCall a = some s') :
    Step s a (s.event a) s' := by
  cases a <;> simp only [stepCall, reduceCtorEq] at hst
  case respond c id accept downloadDir dirs =>
    split at hst
    · rename_i hc
      split at hst
      · rename_i decision hdecision
        cases hst
        have hevent : s.event (.respond c id accept downloadDir dirs) =
            some (.resolved c id decision) := by simp [event, hdecision]
        exact hevent ▸ .respond hc hdecision
      · rename_i error herror
        cases hst
        have hevent : s.event (.respond c id accept downloadDir dirs) = none := by
          simp [event, herror]
        exact hevent ▸ .respondFails hc herror
    · cases hst
  case take c =>
    split at hst
    · rename_i id decision hc
      split at hst
      · rename_i pending hpending
        split at hst
        · rename_i hid
          cases hst
          have hevent : s.event (.take c) =
              some (.retired pending.view.id pending.decision (.call c)) := by
            simp [event, hc, hpending, hid]
          exact hevent ▸ .take (hid ▸ hc) hpending
        · rename_i hid
          cases hst
          have hevent : s.event (.take c) = none := by simp [event, hc, hpending, hid]
          exact hevent ▸ .takeFails hc (by simpa [hpending] using hid)
      · rename_i hpending
        cases hst
        have hevent : s.event (.take c) = none := by simp [event, hc, hpending]
        exact hevent ▸ .takeFails hc (by simp [hpending])
    · cases hst
  case send c =>
    split at hst
    · cases hst
      exact .send ‹_›
    · cases hst
  case notify c =>
    split at hst
    · cases hst
      exact .notify ‹_›
    · cases hst

/-- **Every step is one of the listed ones.** -/
theorem step_spec {s s' : Desk} {a : Action} (hst : s.step a = some s') :
    Step s a (s.event a) s' := by
  cases a with
  | connect h remote offer =>
    simp only [step] at hst
    split at hst
    · cases hst
    · cases hst
      exact .connect ‹_›
  | enqueue h | enqueueFails h | decide h | decisionLost h | elapse h | dropReceiver h | download h
  | acceptFails h =>
    obtain ⟨handler, hh, hst⟩ := Option.bind_eq_some_iff.mp hst
    exact stepHandler_spec hh (by simp) hst
  | respond | take | send | notify => exact stepCall_spec hst
  | recv | store | emitIncoming | enterWait | wake | expire | takeExpired | emitExpired =>
    exact stepForwarder_spec hst

theorem logged_step_spec {l l' : Logged Desk Event} {a : Action}
    (hst : logged.step l a = some l') :
    Step l.state a (l.state.event a) l'.state ∧
      l'.log = (l.state.event a).toList ++ l.log := by
  obtain ⟨hstep, hlog⟩ := Machine.logged_step_iff.mp hst
  exact ⟨step_spec hstep, hlog⟩

theorem logged_reachable {l : Logged Desk Event} {as : List Action}
    (h : logged.exec ⟨start, []⟩ as = some l) : logged.Reachable l :=
  have hstart : logged.Reachable ⟨start, []⟩ := .init ⟨rfl, rfl⟩
  hstart.exec h

end Desk
end IrohShare
