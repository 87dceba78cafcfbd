import IrohShare.Discovery
import IrohShare.OfferDialog

/-!
# The start of the page

`start()` of `app.js` beside the tasks it races with: `discover` and `forward_peers`, the
handlers and `forward_offers`.  It registers its listeners, each at a moment of its own,
calls `initial_state` when all are there, and merges the response over what its listeners
have made of the page by then.  `initial_state` reads the peers and then the slot.

An event that is emitted before its listener is registered is lost; the others reach the
page in the order they were emitted, the response at any time.  Nobody answers an offer
here: the offers come and expire.
-/
namespace IrohShare
open Transition

/-- The events that `start()` races with. -/
inductive UiEvent
  | peers (payload : List Peer)
  | offer (event : PageEvent)
  deriving DecidableEq, Repr

inductive ListenerKind
  | peers
  | incomingOffer
  | offerExpired
  deriving DecidableEq, Repr

def UiEvent.kind : UiEvent → ListenerKind
  | .peers _ => .peers
  | .offer (.incomingOffer _) => .incomingOffer
  | .offer (.offerExpired _) => .offerExpired

/-- The payload of a `peers` event. -/
def UiEvent.peers? : UiEvent → Option (List Peer)
  | .peers payload => some payload
  | .offer _ => none

def UiEvent.offer? : UiEvent → Option PageEvent
  | .peers _ => none
  | .offer event => some event

/-- The tasks, the listeners registered, the events on their way, oldest first, and the
page: `peers` is its `state.peers`, `peersRead` the half of the response that
`initial_state` reads first. -/
structure PageStart where
  watch : PeerWatch := {}
  desk : Desk := .start
  listening : ListenerKind → Bool := fun _ => false
  events : List UiEvent := []
  peersRead : Option (List Peer) := none
  peers : List Peer := []
  page : Page := {}

namespace PageStart

/-- What a step of the peer tasks emits. -/
def emittedPeers (watch : PeerWatch) : PeerWatch.Action → List (List Peer)
  | .emit =>
    match watch.body with
    | .kept current => [current]
    | _ => []
  | _ => []

/-- Events are emitted: those nobody listens for are lost. -/
def emit (s : PageStart) (events : List UiEvent) : List UiEvent :=
  s.events ++ events.filter (fun event => s.listening event.kind)

/-- The listeners: `state.peers = payload`, and those of the offer dialog. -/
def listen (s : PageStart) : UiEvent → PageStart
  | .peers payload => { s with peers := payload }
  | .offer event => { s with page := s.page.listen event }

/-- A step of `respond_offer`. -/
def answers : Desk.Action → Bool
  | .respond .. => true
  | _ => false

inductive Action
  | watch (a : PeerWatch.Action)
  | desk (a : Desk.Action)
  | register (kind : ListenerKind)
  | connect
  | readPeers
  | readOffer
  | deliver
  | complete

variable (text : PeerText) (mobile : Bool)

def step (s : PageStart) : Action → Option PageStart
  | .watch a =>
    (s.watch.step text a).map fun watch =>
      { s with watch, events := s.emit ((emittedPeers s.watch a).map .peers) }
  | .desk a =>
    if answers a then none
    else
      (s.desk.step a).map fun desk =>
        { s with desk, events := s.emit ((Interface.emitted s.desk a).map .offer) }
  | .register kind =>
    match s.page.startUp with
    | .connecting => some { s with listening := Function.update s.listening kind true }
    | _ => none
  | .connect =>
    match s.page.startUp with
    | .connecting =>
      if s.listening .peers && s.listening .incomingOffer && s.listening .offerExpired then
        some { s with page := { s.page with startUp := .invoking } }
      else none
    | _ => none
  | .readPeers =>
    match s.page.startUp, s.peersRead, s.watch.stored with
    | .invoking, none, some peers => some { s with peersRead := some peers }
    | _, _, _ => none
  | .readOffer =>
    match s.page.startUp, s.peersRead with
    | .invoking, some _ =>
      some { s with page := { s.page with
        startUp := .fetched mobile (s.desk.pending.map PendingOffer.view) } }
    | _, _ => none
  | .deliver =>
    match s.events with
    | event :: events => some ({ s with events }.listen event)
    | [] => none
  | .complete =>
    match s.page.startUp, s.peersRead with
    | .fetched mobile incomingOffer, some peers =>
      some { s with peers, page := s.page.started mobile incomingOffer }
    | _, _ => none

def machine : Machine PageStart Action where
  init s := s = {}
  step := step text mobile

/-! ## What is on its way -/

end PageStart

/-- The event that `forward_offers` owes after its last access to the slot. -/
def Forwarder.owes : Forwarder → List PageEvent
  | .emitting view => [.incomingOffer view]
  | .retiring id => [.offerExpired id]
  | _ => []

/-- The list that `forward_peers` has stored and not emitted. -/
def PeerBody.owes : PeerBody → List (List Peer)
  | .kept current => [current]
  | _ => []

/-- The offer that a page learns of last, from `initial_state` or from an event. -/
def lastAnnounced (events : List PageEvent) (told : Option IncomingOffer) :
    Option IncomingOffer :=
  events.foldl
    (fun told event =>
      match event with
      | .incomingOffer view => some view
      | .offerExpired _ => told)
    told

namespace PageStart

/-- The `peers` events on their way or owed. -/
def comingPeers (s : PageStart) : List (List Peer) :=
  s.events.filterMap UiEvent.peers? ++ s.watch.body.owes

/-- The events about offers on their way or owed. -/
def comingOffers (s : PageStart) : List PageEvent :=
  s.events.filterMap UiEvent.offer? ++ s.desk.forwarder.owes

/-- The peers that `initial_state` read are the current ones, or more are coming. -/
def peersCurrent (s : PageStart) (peers : List Peer) : Bool :=
  s.comingPeers ≠ [] || s.watch.stored = some peers

/-- The offer the page learns of last is the one in the slot; or none is, and its expiry
is coming. -/
def offerCurrent (s : PageStart) (incomingOffer : Option IncomingOffer) : Bool :=
  let last := lastAnnounced s.comingOffers incomingOffer
  last = s.desk.pending.map PendingOffer.view ||
    (s.desk.pending.isNone && last.any (fun offer => .offerExpired offer.id ∈ s.comingOffers))

/-- The response is processed when the page has already been brought past it. -/
def outdated (s : PageStart) : Action → Bool
  | .complete =>
    match s.page.startUp, s.peersRead with
    | .fetched _ incomingOffer, some peers =>
      !(s.peersCurrent peers && s.offerCurrent incomingOffer)
    | _, _ => false
  | _ => false

/-- Steps that process no outdated response. -/
abbrev InTime (s : PageStart) (a : Action) : Prop := s.outdated a = false

/-- `start()` has completed, and every event is emitted and delivered. -/
structure Settled (s : PageStart) : Prop where
  completed : s.page.startUp = .completed
  events : s.events = []
  offers : s.desk.forwarder.owes = []
  peers : s.watch.body.owes = []

/-- The page has the peers of the process, and its dialog is open with exactly the offer
in the slot.  Of a dialog that is open while `state.incomingOffer` is `null` this says only
that the slot is empty. -/
structure Follows (s : PageStart) : Prop where
  peers : s.watch.stored = some s.peers
  offer : ∀ offer, s.page.dialogOpen = true ∧ s.page.incomingOffer = some offer ↔
    s.desk.pending.map PendingOffer.view = some offer

end PageStart
end IrohShare
