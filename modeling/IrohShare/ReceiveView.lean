import IrohShare.OfferPage
import IrohShare.Watch

/-!
# The receive view

What becomes of accepted offers: their handlers in `accept_decision` and `download`, the
progress channel that all of them share, `forward_receive_progress`, and `state.receive` of
`app.js` with the timers that empty it.

An offer is accepted once `respond_offer` has delivered the decision; the response is
processed at any later time.  An offer that is declined, or an answer that fails, leaves
`state.receive` as it is.  The borrow of `forward_receive_progress` lasts through its emit,
so that the two are one step, and `OfferProtocol` keeps the channel open.

The channel carries bare numbers.  Where a value comes from, whose record is shown and who
set a timer is only recorded.
-/
namespace IrohShare
open Transition

/-- The number that a `u64` is in JavaScript: the nearest double, ties to even. -/
def jsNumber (n : UInt64) : Nat :=
  let unit := 2 ^ (n.toNat.log2 - 52)
  let low := n.toNat / unit
  let rest := n.toNat % unit
  if unit < 2 * rest ∨ (unit = 2 * rest ∧ low % 2 = 1) then (low + 1) * unit else low * unit

/-- The record of an offer that has just been accepted. -/
def Receive.new (offer : IncomingOffer) : Receive :=
  { filename := offer.filename, downloaded := 0, total := offer.filesize, complete := false }

/-- The test for completion. -/
def Receive.reached (receive : Receive) (payload : UInt64) : Bool :=
  0 < jsNumber receive.total && jsNumber receive.total ≤ jsNumber payload

/-- A value on the progress channel, with the download that published it; `final` if it is
the one published after the export. -/
structure Published where
  bytes : UInt64
  transfer : Option Nat := none
  final : Bool := false
  deriving DecidableEq, Repr

/-- Where the handler of an accepted offer is: before the loop of `download`, in the loop,
between the halves of `send_progress`, before `send_replace`, or done; `failed` is every
way in which it ends without that. -/
inductive DownloadPhase
  | deciding
  | streaming
  | reporting
  | exported
  | finished
  | failed
  deriving DecidableEq, Repr

/-- The handler has not returned from `download`. -/
def DownloadPhase.active : DownloadPhase → Bool
  | deciding | streaming | reporting | exported => true
  | finished | failed => false

/-- The file is at its place. -/
def DownloadPhase.saved : DownloadPhase → Bool
  | exported | finished => true
  | _ => false

/-- An accepted offer, as it was shown; `responded` if the response of `respond_offer` has
been processed. -/
structure Transfer where
  offer : IncomingOffer
  download : DownloadPhase := .deciding
  responded : Bool := false
  deriving DecidableEq, Repr

/-- `state.receive`, and whose record it is. -/
structure Shown where
  transfer : Nat
  receive : Receive
  deriving DecidableEq, Repr

/-- The accepted offers, the channel, the task, the events on their way, oldest first, and
the page; `timers` are the timers that have not fired, oldest first: each takes two seconds. -/
structure ReceiveView where
  transfers : Nat → Option Transfer := fun _ => none
  channel : Watch.Channel Published := { value := { bytes := 0 } }
  reader : Watch.Reader := {}
  events : List Published := []
  receive : Option Shown := none
  timers : List Nat := []

namespace ReceiveView

/-- Replace transfer `k`. -/
def setTransfer (s : ReceiveView) (k : Nat) (t : Transfer) : ReceiveView :=
  { s with transfers := Function.update s.transfers k (some t) }

/-- The listener of `receive-progress`. -/
def listen (s : ReceiveView) (payload : UInt64) : ReceiveView :=
  match s.receive with
  | none => s
  | some shown =>
    let receive := { shown.receive with downloaded := payload }
    if receive.reached payload then
      { s with
        receive := some { shown with receive := { receive with complete := true } }
        timers := s.timers ++ [shown.transfer] }
    else { s with receive := some { shown with receive } }

inductive Action
  | accept (k : Nat) (offer : IncomingOffer)
  | respond (k : Nat)
  | decide (k : Nat)
  | progress (k : Nat) (bytes : UInt64)
  | report (k : Nat)
  | exportFile (k : Nat)
  | finish (k : Nat)
  | fail (k : Nat)
  | wake
  | emit
  | deliver
  | fire

/-- The steps of the handler of transfer `k`. -/
def stepHandler (s : ReceiveView) (k : Nat) (t : Transfer) : Action → Option ReceiveView
  | .decide _ =>
    match t.download with
    | .deciding => some (s.setTransfer k { t with download := .streaming })
    | _ => none
  | .progress _ bytes =>
    match t.download with
    | .streaming =>
      some { s.setTransfer k { t with download := .reporting } with
        channel := s.channel.send { bytes, transfer := some k } }
    | _ => none
  | .report _ =>
    match t.download with
    | .reporting => some (s.setTransfer k { t with download := .streaming })
    | _ => none
  | .exportFile _ =>
    match t.download with
    | .streaming => some (s.setTransfer k { t with download := .exported })
    | _ => none
  | .finish _ =>
    match t.download with
    | .exported =>
      some { s.setTransfer k { t with download := .finished } with
        channel := s.channel.send
          { bytes := t.offer.filesize, transfer := some k, final := true } }
    | _ => none
  | .fail _ =>
    match t.download with
    | .deciding | .streaming | .reporting => some (s.setTransfer k { t with download := .failed })
    | _ => none
  | _ => none

def step (s : ReceiveView) : Action → Option ReceiveView
  | .accept k offer =>
    match s.transfers k with
    | none => some (s.setTransfer k { offer })
    | some _ => none
  | .respond k =>
    match s.transfers k with
    | some t =>
      if t.responded then none
      else
        some { s.setTransfer k { t with responded := true } with
          receive := some ⟨k, .new t.offer⟩ }
    | none => none
  | a@(.decide k) | a@(.progress k _) | a@(.report k) | a@(.exportFile k) | a@(.finish k)
  | a@(.fail k) => (s.transfers k).bind (fun t => s.stepHandler k t a)
  | .wake => (s.reader.wake s.channel).map (fun reader => { s with reader })
  | .emit =>
    match s.reader.take s.channel with
    | some (value, reader) =>
      reader.resume.map (fun reader => { s with reader, events := s.events ++ [value] })
    | none => none
  | .deliver =>
    match s.events with
    | value :: events => some ({ s with events }.listen value.bytes)
    | [] => none
  | .fire =>
    match s.timers with
    | _ :: timers => some { s with receive := none, timers }
    | [] => none

def machine : Machine ReceiveView Action where
  init s := s = {}
  step := step

/-! ## What a step can do -/

/-- The steps again, one constructor for each thing that can happen. -/
inductive Step (s : ReceiveView) : Action → ReceiveView → Prop
  | accept {k : Nat} {offer : IncomingOffer} : s.transfers k = none →
      Step s (.accept k offer) (s.setTransfer k { offer })
  | respond {k : Nat} {t : Transfer} : s.transfers k = some t → t.responded = false →
      Step s (.respond k) { s.setTransfer k { t with responded := true } with
        receive := some ⟨k, .new t.offer⟩ }
  | decide {k : Nat} {t : Transfer} : s.transfers k = some t → t.download = .deciding →
      Step s (.decide k) (s.setTransfer k { t with download := .streaming })
  | progress {k : Nat} {t : Transfer} {bytes : UInt64} :
      s.transfers k = some t → t.download = .streaming →
      Step s (.progress k bytes) { s.setTransfer k { t with download := .reporting } with
        channel := s.channel.send { bytes, transfer := some k } }
  | report {k : Nat} {t : Transfer} : s.transfers k = some t → t.download = .reporting →
      Step s (.report k) (s.setTransfer k { t with download := .streaming })
  | exportFile {k : Nat} {t : Transfer} : s.transfers k = some t → t.download = .streaming →
      Step s (.exportFile k) (s.setTransfer k { t with download := .exported })
  | finish {k : Nat} {t : Transfer} : s.transfers k = some t → t.download = .exported →
      Step s (.finish k) { s.setTransfer k { t with download := .finished } with
        channel := s.channel.send
          { bytes := t.offer.filesize, transfer := some k, final := true } }
  | fail {k : Nat} {t : Transfer} : s.transfers k = some t → t.download.active = true →
      t.download.saved = false →
      Step s (.fail k) (s.setTransfer k { t with download := .failed })
  | wake : s.reader.phase = .waiting → s.reader.seen ≠ s.channel.version →
      Step s .wake
        { s with reader := { s.reader with seen := s.channel.version, phase := .woken } }
  | emit : s.reader.phase = .woken →
      Step s .emit { s with
        reader :=
          { seen := s.channel.version, taken := s.reader.taken ++ [s.channel.version] }
        events := s.events ++ [s.channel.value] }
  | unheard {value : Published} {events : List Published} :
      s.events = value :: events → s.receive = none → Step s .deliver { s with events }
  | completes {value : Published} {events : List Published} {shown : Shown} :
      s.events = value :: events → s.receive = some shown →
      shown.receive.reached value.bytes = true →
      Step s .deliver { s with
        events
        receive := some ⟨shown.transfer,
          { shown.receive with downloaded := value.bytes, complete := true }⟩
        timers := s.timers ++ [shown.transfer] }
  | advances {value : Published} {events : List Published} {shown : Shown} :
      s.events = value :: events → s.receive = some shown →
      shown.receive.reached value.bytes = false →
      Step s .deliver { s with
        events
        receive := some ⟨shown.transfer, { shown.receive with downloaded := value.bytes }⟩ }
  | fire {k : Nat} {timers : List Nat} : s.timers = k :: timers →
      Step s .fire { s with receive := none, timers }

theorem stepHandler_spec {s s' : ReceiveView} {k : Nat} {t : Transfer} {a : Action}
    (ht : s.transfers k = some t)
    (ha : a = .decide k ∨ (∃ bytes, a = .progress k bytes) ∨ a = .report k ∨
      a = .exportFile k ∨ a = .finish k ∨ a = .fail k)
    (hst : s.stepHandler k t a = some s') : Step s a s' := by
  rcases ha with rfl | ⟨bytes, rfl⟩ | rfl | rfl | rfl | rfl <;> simp only [stepHandler] at hst
  · split at hst <;> cases hst
    exact .decide ht ‹_›
  · split at hst <;> cases hst
    exact .progress ht ‹_›
  · split at hst <;> cases hst
    exact .report ht ‹_›
  · split at hst <;> cases hst
    exact .exportFile ht ‹_›
  · split at hst <;> cases hst
    exact .finish ht ‹_›
  · split at hst <;> cases hst <;>
      · rename_i hdownload
        exact .fail ht (by rw [hdownload]; rfl) (by rw [hdownload]; rfl)

theorem listen_spec {s : ReceiveView} {value : Published} {events : List Published}
    (hevents : s.events = value :: events) :
    Step s .deliver ({ s with events }.listen value.bytes) := by
  unfold listen
  split
  · exact .unheard hevents ‹_›
  · dsimp only
    split
    · exact .completes hevents ‹_› ‹_›
    · exact .advances hevents ‹_› (Bool.not_eq_true _ ▸ ‹_›)

theorem step_spec {s s' : ReceiveView} {a : Action} (hopen : s.channel.closed = false)
    (hst : s.step a = some s') : Step s a s' := by
  cases a with
  | accept k offer =>
    simp only [step] at hst
    split at hst <;> cases hst
    exact .accept ‹_›
  | respond k =>
    simp only [step] at hst
    split at hst
    · split at hst <;> cases hst
      exact .respond ‹_› (Bool.not_eq_true _ ▸ ‹_›)
    · cases hst
  | decide k | progress k bytes | report k | exportFile k | finish k | fail k =>
    obtain ⟨t, ht, hst⟩ := Option.bind_eq_some_iff.mp hst
    exact stepHandler_spec ht (by simp) hst
  | wake =>
    obtain ⟨reader, hwake, rfl⟩ := Option.map_eq_some_iff.mp hst
    obtain ⟨hphase, ⟨hunseen, rfl⟩ | ⟨hclosed, rfl⟩⟩ := Watch.Reader.wake_spec hwake
    · exact .wake hphase (Watch.Channel.changed_eq_unseen hunseen)
    · rw [(Watch.Channel.changed_eq_closed hclosed).2] at hopen
      cases hopen
  | emit =>
    simp only [step] at hst
    split at hst
    · rename_i value taking htake
      obtain ⟨reader, hresume, rfl⟩ := Option.map_eq_some_iff.mp hst
      obtain ⟨hphase, rfl, rfl⟩ := Watch.Reader.take_spec htake
      obtain ⟨-, rfl⟩ := Watch.Reader.resume_spec hresume
      exact .emit hphase
    · cases hst
  | deliver =>
    simp only [step] at hst
    split at hst <;> cases hst
    exact listen_spec ‹_›
  | fire =>
    simp only [step] at hst
    split at hst <;> cases hst
    exact .fire ‹_›

/-! ## What a run is judged by -/

/-- The file of transfer `k` is at its place. -/
def saved (s : ReceiveView) (k : Nat) : Bool := (s.transfers k).any (fun t => t.download.saved)

/-- The handler of transfer `k` is still deciding or downloading. -/
def active (s : ReceiveView) (k : Nat) : Bool := (s.transfers k).any (fun t => t.download.active)

/-- The channel holds a value that is to be forwarded. -/
def unread (s : ReceiveView) : Bool := s.reader.phase = .woken || s.reader.seen ≠ s.channel.version

/-- The values that the page will still be told of. -/
def coming (s : ReceiveView) : List Published :=
  s.events ++ if s.unread then [s.channel.value] else []

/-- A value completes the record shown that is not the one its own download published after
the export. -/
def misread (s : ReceiveView) : Action → Bool
  | .deliver =>
    match s.events, s.receive with
    | value :: _, some shown =>
      shown.receive.reached value.bytes &&
        !(value.transfer = some shown.transfer && value.final)
    | _, _ => false
  | _ => false

/-- The record of an offer is made while a timer of an earlier one is set. -/
def crosses (s : ReceiveView) : Action → Bool
  | .respond _ => !s.timers.isEmpty
  | _ => false

/-- Steps in which values and timers meet their own records. -/
abbrev Apart (s : ReceiveView) (a : Action) : Prop := s.misread a = false ∧ s.crosses a = false

/-- Some value coming or some timer will end the view of `receive`. -/
def ends (s : ReceiveView) (receive : Receive) : Bool :=
  !s.timers.isEmpty || s.coming.any (fun value => receive.reached value.bytes)

/-- The record will still be left: the view ends, or its download may yet publish the last
value, and that is not zero. -/
def left (s : ReceiveView) (shown : Shown) : Bool :=
  s.ends shown.receive || (shown.receive.total ≠ 0 && s.active shown.transfer)

/-- `bytes` is published over the one value that would have completed the record shown. -/
def overwrites (s : ReceiveView) (bytes : UInt64) : Bool :=
  s.receive.any fun shown =>
    s.timers.isEmpty && !s.events.any (fun value => shown.receive.reached value.bytes) &&
      !shown.receive.reached bytes &&
      !(shown.receive.total ≠ 0 && s.active shown.transfer)

/-- The step leaves a record on the page that nothing will end: it is made when its download
has nothing more to tell, or its size is zero; its download fails; or its last value is
overwritten. -/
def strands (s : ReceiveView) : Action → Bool
  | .respond k => (s.transfers k).any fun t => !s.left ⟨k, .new t.offer⟩
  | .fail k => s.receive.any fun shown => shown.transfer = k && !s.ends shown.receive
  | .progress _ bytes => s.overwrites bytes
  | .finish k => (s.transfers k).any fun t => s.overwrites t.offer.filesize
  | _ => false

abbrev Unstranded (s : ReceiveView) (a : Action) : Prop := s.strands a = false

/-- Nothing more happens: every handler is done, every response is processed, the last value
is forwarded, the events are delivered and the timers have fired. -/
structure Quiescent (s : ReceiveView) : Prop where
  transfers : ∀ k t, s.transfers k = some t → t.download.active = false ∧ t.responded = true
  forwarded : s.unread = false
  events : s.events = []
  timers : s.timers = []

end ReceiveView
end IrohShare
