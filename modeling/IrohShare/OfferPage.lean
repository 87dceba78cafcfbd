import IrohShare.OfferDesk

/-!
# The page and its offer dialog

What `app.js` does with offers, beside the process behind it.  Events reach the page in
the order they were emitted, the response of a command at any time after its return.
Every call of `answerOffer` has a number, and its call of `respond_offer` the same one.

`start()` registers the listeners of both events together; what is emitted before that is
lost.  The commands of the interface do not fail on their own.
-/
namespace IrohShare
open Transition

/-- The events `incoming-offer` and `offer-expired`. -/
inductive PageEvent
  | incomingOffer (view : IncomingOffer)
  | offerExpired (id : Nat)
  deriving DecidableEq, Repr

/-- `state.receive`. -/
structure Receive where
  filename : String
  downloaded : UInt64
  total : UInt64
  complete : Bool
  deriving DecidableEq, Repr

/-- Where a call of `answerOffer` is: not made, in the directory dialog, in
`respond_offer`, or over. -/
inductive Answer
  | none
  | choosing (offer : IncomingOffer)
  | awaiting (offer : IncomingOffer) (accept : Bool) (downloadDir : Option String)
  | finished
  deriving DecidableEq, Repr

/-- The call is suspended. -/
def Answer.suspended : Answer → Bool
  | choosing _ | awaiting .. => true
  | _ => false

/-- Where `start()` is: before the listeners are registered, before `initial_state` runs,
before its response is processed, or completed. -/
inductive StartUp
  | connecting
  | invoking
  | fetched (mobile : Bool) (incomingOffer : Option IncomingOffer)
  | completed
  deriving DecidableEq, Repr

/-- The part of the page that has to do with offers. -/
structure Page where
  startUp : StartUp := .connecting
  mobile : Bool := false
  incomingOffer : Option IncomingOffer := none
  dialogOpen : Bool := false
  offerError : String := ""
  receive : Option Receive := none
  answers : CallId → Answer := fun _ => .none

namespace Page

/-- `showIncoming`. -/
def showIncoming (page : Page) (offer : IncomingOffer) : Page :=
  { page with incomingOffer := some offer, offerError := "", dialogOpen := true }

/-- The listeners of the two events. -/
def listen (page : Page) : PageEvent → Page
  | .incomingOffer view => page.showIncoming view
  | .offerExpired id =>
    if page.incomingOffer.map IncomingOffer.id = some id then
      { page with incomingOffer := none, dialogOpen := false }
    else page

/-- Replace answer `k`. -/
def setAnswer (page : Page) (k : CallId) (answer : Answer) : Page :=
  { page with answers := Function.update page.answers k answer }

/-- `answerOffer` up to its first `await`. -/
def answerOffer (page : Page) (k : CallId) (accept : Bool) : Page :=
  match page.incomingOffer with
  | none => page.setAnswer k .finished
  | some offer =>
    if accept && !page.mobile then page.setAnswer k (.choosing offer)
    else page.setAnswer k (.awaiting offer accept none)

/-- `answerOffer` after the directory dialog; the empty path is falsy too. -/
def chosen (page : Page) (k : CallId) (offer : IncomingOffer) :
    Except String (Option String) → Page
  | .ok (some downloadDir) =>
    if downloadDir = "" then page.setAnswer k .finished
    else page.setAnswer k (.awaiting offer true (some downloadDir))
  | .ok none => page.setAnswer k .finished
  | .error error => { page.setAnswer k .finished with offerError := error }

/-- `answerOffer` after the response of `respond_offer`. -/
def responded (page : Page) (k : CallId) (offer : IncomingOffer) (accept : Bool) :
    Except String Unit → Page
  | .ok () =>
    { page.setAnswer k .finished with
      incomingOffer := none
      dialogOpen := false
      receive :=
        if accept then
          some { filename := offer.filename, downloaded := 0, total := offer.filesize,
                 complete := false }
        else page.receive }
  | .error error => { page.setAnswer k .finished with offerError := error }

/-- `start()` after the response of `initial_state`. -/
def started (page : Page) (mobile : Bool) (incomingOffer : Option IncomingOffer) : Page :=
  let page := { page with startUp := .completed, mobile, incomingOffer }
  match incomingOffer with
  | some offer => page.showIncoming offer
  | none => page

end Page

/-- The process, the events under way to the page, oldest first, and the page.  `mobile`
is the `cfg!(mobile)` of the build. -/
structure Interface where
  mobile : Bool
  desk : Desk
  events : List PageEvent
  page : Page

namespace Interface

/-- The state in which the process starts. -/
def start (mobile : Bool) : Interface where
  mobile
  desk := .start
  events := []
  page := {}

/-- What a step of the process emits. -/
def emitted (desk : Desk) : Desk.Action → List PageEvent
  | .emitIncoming =>
    match desk.forwarder with
    | .emitting view => [.incomingOffer view]
    | _ => []
  | .emitExpired =>
    match desk.forwarder with
    | .retiring id => [.offerExpired id]
    | _ => []
  | _ => []

inductive Action
  | desk (a : Desk.Action)
  | connect
  | fetch
  | complete
  | answer (k : CallId) (accept : Bool)
  | choose (k : CallId) (choice : Except String (Option String))
  | deliver
  | respond (k : CallId)

/-- `respond_offer` is called by an answer only, with what the answer passes to it. -/
def invokes (page : Page) : Desk.Action → Bool
  | .respond k id accept downloadDir _ =>
    match page.answers k with
    | .awaiting offer accept' downloadDir' =>
      offer.id = id ∧ accept' = accept ∧ downloadDir' = downloadDir
    | _ => false
  | _ => true

/-- One step of the process or of the page. -/
def step (s : Interface) : Action → Option Interface
  | .desk a =>
    -- before the listeners are registered, events are lost
    if invokes s.page a then
      (s.desk.step a).map (fun desk => { s with
        desk
        events :=
          if s.page.startUp = .connecting then s.events else s.events ++ emitted s.desk a })
    else none
  | .connect =>
    match s.page.startUp with
    | .connecting => some { s with page := { s.page with startUp := .invoking } }
    | _ => none
  | .fetch =>
    match s.page.startUp with
    | .invoking => some { s with
        page := { s.page with
          startUp := .fetched s.mobile (s.desk.pending.map PendingOffer.view) } }
    | _ => none
  | .complete =>
    match s.page.startUp with
    | .fetched mobile incomingOffer =>
      some { s with page := s.page.started mobile incomingOffer }
    | _ => none
  | .answer k accept =>
    match s.page.answers k with
    | .none => some { s with page := s.page.answerOffer k accept }
    | _ => none
  | .choose k choice =>
    match s.page.answers k with
    | .choosing offer => some { s with page := s.page.chosen k offer choice }
    | _ => none
  | .deliver =>
    match s.events with
    | event :: events => some { s with events, page := s.page.listen event }
    | [] => none
  | .respond k =>
    match s.page.answers k, (s.desk.calls k).result with
    | .awaiting offer accept _, some result =>
      some { s with page := s.page.responded k offer accept result }
    | _, _ => none

/-- The process and the page as a machine. -/
def machine : Machine Interface Action where
  init s := ∃ mobile, s = start mobile
  step := step

/-- The steps again, one constructor for each thing that can happen. -/
inductive Step (s : Interface) : Action → Interface → Prop
  | desk {a : Desk.Action} {desk : Desk} :
      invokes s.page a = true → s.desk.step a = some desk →
      Step s (.desk a) { s with
        desk
        events :=
          if s.page.startUp = .connecting then s.events else s.events ++ emitted s.desk a }
  | connect :
      s.page.startUp = .connecting →
      Step s .connect { s with page := { s.page with startUp := .invoking } }
  | fetch :
      s.page.startUp = .invoking →
      Step s .fetch { s with
        page := { s.page with
          startUp := .fetched s.mobile (s.desk.pending.map PendingOffer.view) } }
  | complete {mobile : Bool} {incomingOffer : Option IncomingOffer} :
      s.page.startUp = .fetched mobile incomingOffer →
      Step s .complete { s with page := s.page.started mobile incomingOffer }
  | answer {k : CallId} {accept : Bool} :
      s.page.answers k = .none →
      Step s (.answer k accept) { s with page := s.page.answerOffer k accept }
  | choose {k : CallId} {offer : IncomingOffer} {choice : Except String (Option String)} :
      s.page.answers k = .choosing offer →
      Step s (.choose k choice) { s with page := s.page.chosen k offer choice }
  | deliver {event : PageEvent} {events : List PageEvent} :
      s.events = event :: events →
      Step s .deliver { s with events, page := s.page.listen event }
  | respond {k : CallId} {offer : IncomingOffer} {accept : Bool} {downloadDir : Option String}
      {result : Except String Unit} :
      s.page.answers k = .awaiting offer accept downloadDir →
      (s.desk.calls k).result = some result →
      Step s (.respond k) { s with page := s.page.responded k offer accept result }

theorem step_spec {s s' : Interface} {a : Action} (hst : s.step a = some s') : Step s a s' := by
  cases a <;> simp only [step] at hst
  case desk a =>
    obtain ⟨hinvokes, hst⟩ := Option.ite_none_right_eq_some.mp hst
    obtain ⟨desk, hdesk, ⟨⟩⟩ := Option.map_eq_some_iff.mp hst
    exact .desk hinvokes hdesk
  case connect =>
    split at hst
    · cases hst
      exact .connect ‹_›
    · cases hst
  case fetch =>
    split at hst
    · cases hst
      exact .fetch ‹_›
    · cases hst
  case complete =>
    split at hst
    · cases hst
      exact .complete ‹_›
    · cases hst
  case answer k accept =>
    split at hst
    · cases hst
      exact .answer ‹_›
    · cases hst
  case choose k choice =>
    split at hst
    · cases hst
      exact .choose ‹_›
    · cases hst
  case deliver =>
    split at hst
    · cases hst
      exact .deliver ‹_›
    · cases hst
  case respond k =>
    split at hst
    · cases hst
      exact .respond ‹_› ‹_›
    · cases hst

/-- The process behind the page runs as it does on its own. -/
theorem desk_reachable {C : Interface → Action → Prop} {s : Interface}
    (hs : machine.ReachableBy C s) : Desk.machine.Reachable s.desk := by
  induction hs with
  | init hi =>
    obtain ⟨mobile, rfl⟩ := hi
    exact .init rfl
  | step _ _ hst ih =>
    cases step_spec hst with
    | desk _ hdesk => exact .step ih trivial hdesk
    | _ => exact ih

end Interface
end IrohShare
