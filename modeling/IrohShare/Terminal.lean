import IrohShare.LineInput
import IrohShare.OfferDesk

/-!
# The receiver behind the terminal

`desktop_main` with the command `receive`: the handlers of `OfferProtocol::accept` and
the offer channel are those of the interface, and one loop stands where the interface
has `forward_offers`, the slot and `respond_offer`.  The loop takes an offer, prints
the prompt of `confirm`, reads a line and sends the decision.  It looks for the
interrupt only while it waits for an offer; an interrupt that comes during a prompt
finds no listener.

`confirm` makes a reader for each line and throws it away with what it has read
behind the line.  What standard input gives, and in which chunks, is in the labels.
-/
namespace IrohShare
open ByteStream LineInput Transition

/-- Where the loop is: at `select!`, reading the line that answers a prompt, about to
send the decision, or behind the loop with its result. -/
inductive TerminalLoop
  | selecting
  | reading (request : OfferRequest) (line : List UInt8)
  | answering (request : OfferRequest) (answer : String)
  | ended (result : Except String Unit)

/-- The state of the receiving process behind the terminal. -/
structure Terminal where
  handlers : HandlerId → Option Handler
  queue : List OfferRequest
  loop : TerminalLoop

namespace Terminal

/-- The state before the first connection. -/
def start : Terminal where
  handlers _ := none
  queue := []
  loop := .selecting

/-- The handlers and the queue as a desk whose forwarder never moves. -/
def desk (s : Terminal) : Desk := { Desk.start with handlers := s.handlers, queue := s.queue }

/-- What a handler's step leaves of the handlers and the queue. -/
def setDesk (s : Terminal) (desk : Desk) : Terminal :=
  { s with handlers := desk.handlers, queue := desk.queue }

/-- The steps of the handlers. -/
def ofHandler : Desk.Action → Bool
  | .connect .. | .enqueue _ | .decide _ | .decisionLost _ | .elapse _ | .dropReceiver _
  | .download _ | .acceptFails _ => true
  | _ => false

/-! ## The steps -/

inductive Action
  | task (a : Desk.Action)
  | recv
  | read (chunk : List UInt8)
  | readFails (error : String)
  | answer
  | ctrlC (result : Except String Unit)

/-- The error of `read_line` for a line that is not text. -/
def invalidLine : String := "stream did not contain valid UTF-8"

/-- The loop ends while it holds the sender of `request`. -/
def abandon (s : Terminal) (request : OfferRequest) (error : String) : Terminal :=
  { s with
    handlers := Desk.dropSenders s.handlers [request.decision]
    loop := .ended (.error error) }

/-- One step of the process that receives into `downloadDir`. -/
def step (downloadDir : String) (s : Terminal) : Action → Option Terminal
  | .task a => if ofHandler a then (s.desk.step a).map s.setDesk else none
  | .recv =>
    match s.loop, s.queue with
    | .selecting, request :: queue => some { s with queue, loop := .reading request [] }
    | _, _ => none
  | .read chunk =>
    match s.loop with
    | .reading request line =>
      match feed line chunk with
      | .more line => some { s with loop := .reading request line }
      | .done line _ =>
        match utf8Decode line with
        | some answer => some { s with loop := .answering request answer }
        | none => some (s.abandon request invalidLine)
    | _ => none
  | .readFails error =>
    match s.loop with
    | .reading request _ => some (s.abandon request error)
    | _ => none
  | .answer =>
    match s.loop with
    | .answering request answer =>
      some { s with
        handlers := Desk.deliver s.handlers request.decision (terminalDecision downloadDir answer)
        loop := .selecting }
    | _ => none
  | .ctrlC result =>
    match s.loop with
    | .selecting => some { s with loop := .ended result }
    | _ => none

/-- The process as a machine. -/
def machine (downloadDir : String) : Machine Terminal Action where
  init s := s = start
  step := step downloadDir

/-! ## What a run is judged by -/

/-- The events of a run.  `answered` says whether the handler still listened. -/
inductive Event
  | task (event : Desk.Event)
  | queued (request : OfferRequest)
  | prompted (request : OfferRequest)
  | read (chunk : List UInt8)
  | answered (request : OfferRequest) (answer : String) (delivered : Bool)
  deriving DecidableEq

/-- The event of a step. -/
def event (s : Terminal) : Action → Option Event
  | .task (.enqueue h) => (s.handlers h).map (fun handler => .queued ⟨handler.offer, h⟩)
  | .task a => (s.desk.event a).map .task
  | .recv => s.queue.head?.map .prompted
  | .read chunk => some (.read chunk)
  | .answer =>
    match s.loop with
    | .answering request answer =>
      some (.answered request answer (Desk.deliverable s.handlers request.decision))
    | _ => none
  | _ => none

/-- The process with the log of its events. -/
def logged (downloadDir : String) : Machine (Logged Terminal Event) Action :=
  (machine downloadDir).logged event

/-! ## What a step can do -/

/-- The steps again, one constructor for each thing that can happen. -/
inductive Step (downloadDir : String) (s : Terminal) : Action → Option Event → Terminal → Prop
  | task {a : Desk.Action} {event : Option Desk.Event} {s' : Terminal} :
      ofHandler a = true → (∀ h, a ≠ .enqueue h) → Desk.Step s.desk a event s'.desk →
      s'.queue = s.queue → s'.loop = s.loop →
      Step downloadDir s (.task a) (event.map .task) s'
  | enqueue {h : HandlerId} {handler : Handler} :
      s.handlers h = some handler → handler.phase = .offering →
      s.queue.length < Desk.queueCapacity →
      Step downloadDir s (.task (.enqueue h)) (some (.queued ⟨handler.offer, h⟩))
        { s with
          handlers := Function.update s.handlers h (some { handler with phase := .waiting })
          queue := s.queue ++ [⟨handler.offer, h⟩] }
  | recv {request : OfferRequest} {queue : List OfferRequest} :
      s.loop = .selecting → s.queue = request :: queue →
      Step downloadDir s .recv (some (.prompted request))
        { s with queue, loop := .reading request [] }
  | more {request : OfferRequest} {line chunk line' : List UInt8} :
      s.loop = .reading request line → feed line chunk = .more line' →
      Step downloadDir s (.read chunk) (some (.read chunk))
        { s with loop := .reading request line' }
  | line {request : OfferRequest} {line chunk line' lost : List UInt8} {answer : String} :
      s.loop = .reading request line → feed line chunk = .done line' lost →
      utf8Decode line' = some answer →
      Step downloadDir s (.read chunk) (some (.read chunk))
        { s with loop := .answering request answer }
  | invalid {request : OfferRequest} {line chunk line' lost : List UInt8} :
      s.loop = .reading request line → feed line chunk = .done line' lost →
      utf8Decode line' = none →
      Step downloadDir s (.read chunk) (some (.read chunk)) (s.abandon request invalidLine)
  | readFails {request : OfferRequest} {line : List UInt8} {error : String} :
      s.loop = .reading request line →
      Step downloadDir s (.readFails error) none (s.abandon request error)
  | answer {request : OfferRequest} {answer : String} :
      s.loop = .answering request answer →
      Step downloadDir s .answer
        (some (.answered request answer (Desk.deliverable s.handlers request.decision)))
        { s with
          handlers := Desk.deliver s.handlers request.decision (terminalDecision downloadDir answer)
          loop := .selecting }
  | ctrlC {result : Except String Unit} :
      s.loop = .selecting → Step downloadDir s (.ctrlC result) none { s with loop := .ended result }

variable {downloadDir : String} {s s' : Terminal}

/-- A handler's step moves nothing of the desk but the handlers and the queue. -/
theorem desk_setDesk {a : Desk.Action} {event : Option Desk.Event} {desk : Desk}
    (ha : ofHandler a = true) (hst : Desk.Step s.desk a event desk) :
    (s.setDesk desk).desk = desk := by
  cases hst with
  | connect | enqueue | decide | decisionLost | elapse | dropReceiver | download | acceptFails =>
    rfl
  | _ => cases ha

/-- Only `enqueue` moves the queue. -/
theorem queue_of_step {a : Desk.Action} {event : Option Desk.Event} {desk : Desk}
    (ha : ofHandler a = true) (hne : ∀ h, a ≠ .enqueue h) (hst : Desk.Step s.desk a event desk) :
    desk.queue = s.queue := by
  cases hst with
  | enqueue => exact absurd rfl (hne _)
  | connect | decide | decisionLost | elapse | dropReceiver | download | acceptFails => rfl
  | _ => cases ha

theorem step_task_spec {a : Desk.Action} (hst : step downloadDir s (.task a) = some s') :
    Step downloadDir s (.task a) (s.event (.task a)) s' := by
  simp only [step] at hst
  split at hst
  · rename_i ha
    obtain ⟨desk, hdesk, rfl⟩ := Option.map_eq_some_iff.mp hst
    have hspec := Desk.step_spec hdesk
    by_cases hne : ∃ h, a = .enqueue h
    · obtain ⟨h, rfl⟩ := hne
      cases hspec with
      | enqueue hh hphase hroom _ =>
        have hh : s.handlers h = some _ := hh
        simp only [event, hh, Option.map_some]
        exact .enqueue hh hphase hroom
    · have hne : ∀ h, a ≠ .enqueue h := fun h heq => hne ⟨h, heq⟩
      have hevent : s.event (.task a) = (s.desk.event a).map .task := by
        cases a <;> first | rfl | exact absurd rfl (hne _)
      rw [hevent]
      exact .task ha hne (by rwa [desk_setDesk ha hspec]) (queue_of_step ha hne hspec) rfl
  · cases hst

/-- **Every step is one of the listed ones.** -/
theorem step_spec {a : Action} (hst : step downloadDir s a = some s') :
    Step downloadDir s a (s.event a) s' := by
  cases a with
  | task a => exact step_task_spec hst
  | recv =>
    simp only [step] at hst
    split at hst
    · rename_i hloop hqueue
      cases hst
      simp only [event, hqueue, List.head?_cons, Option.map_some]
      exact .recv hloop hqueue
    · cases hst
  | read chunk =>
    simp only [step] at hst
    split at hst
    · rename_i hloop
      split at hst
      · cases hst
        exact .more hloop ‹_›
      · split at hst
        · cases hst
          exact .line hloop ‹_› ‹_›
        · cases hst
          exact .invalid hloop ‹_› ‹_›
    · cases hst
  | readFails error =>
    simp only [step] at hst
    split at hst
    · cases hst
      exact .readFails ‹_›
    · cases hst
  | answer =>
    simp only [step] at hst
    split at hst
    · rename_i hloop
      cases hst
      simp only [event, hloop]
      exact .answer hloop
    · cases hst
  | ctrlC result =>
    simp only [step] at hst
    split at hst
    · cases hst
      exact .ctrlC ‹_›
    · cases hst

theorem logged_step_spec {l l' : Logged Terminal Event} {a : Action}
    (hst : (logged downloadDir).step l a = some l') :
    Step downloadDir l.state a (l.state.event a) l'.state ∧
      l'.log = (l.state.event a).toList ++ l.log := by
  obtain ⟨hstep, hlog⟩ := Machine.logged_step_iff.mp hst
  exact ⟨step_spec hstep, hlog⟩

theorem logged_reachable {l : Logged Terminal Event} {as : List Action}
    (h : (logged downloadDir).exec ⟨start, []⟩ as = some l) :
    (logged downloadDir).Reachable l :=
  have hstart : (logged downloadDir).Reachable ⟨start, []⟩ := .init ⟨rfl, rfl⟩
  hstart.exec h

end Terminal
end IrohShare
