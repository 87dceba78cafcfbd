import IrohShare.Transition
import IrohShare.Protocol
import IrohShare.Sender

/-!
# One transfer, seen from both ends

`run_sender` and the handler of its offer, with a clock and the messages between them.
Messages arrive in order, each after any delay; the one thing that closes the connection
is the return of `run_sender`, and the close travels like a message.  Each end has its
own 60 seconds: the sender's start when its offer is written, the receiver's when the
offer enters its queue.  Downloads and exports succeed, unless the close cuts off a
progress report; the look before a download may find a file.
-/
namespace IrohShare
open Transition ByteStream

/-- What the receiver writes. -/
inductive Message
  | decision (status : DecisionStatus)
  | status (status : DownloadStatus)
  deriving DecidableEq, Repr

/-- The bytes of a message on the stream. -/
def Message.bytes : Message → List UInt8
  | decision answer => [answer.toU8]
  | status report => report.frame

/-- Where `run_sender` is: before its offer is written, waiting for the decision, in
`downloaded`, or returned. -/
inductive SenderPhase
  | writing
  | deciding
  | downloading
  | returned (result : Except String SendOutcome)

/-- Where the handler is in `OfferProtocol::accept`. -/
inductive ReceiverPhase
  | reading
  | offering
  | waiting
  | accepting
  | looking
  | downloading
  | completing
  | failing
  | declining
  | closing
  | returned
  deriving DecidableEq, Repr

/-- The handler has neither exported a file nor ended its answer. -/
def ReceiverPhase.early : ReceiverPhase → Bool
  | completing | closing | returned => false
  | _ => true

/-- Both ends and what is between them.  `toSender` is what the receiver has written and
the sender has not read, and `read` records what it has read, both oldest first;
`timedOutAt` records when the sender's wait ran out. -/
structure BothEnds where
  now : Nat
  sender : SenderPhase
  startedAt : Nat
  timedOutAt : Nat
  receiver : ReceiverPhase
  enqueuedAt : Nat
  offerInFlight : Bool
  toSender : List Message
  read : List Message
  closeArrived : Bool
  exported : Bool

namespace BothEnds

/-- The length of both waits, in ticks of a second. -/
def waitSeconds : Nat := 60

/-- The error of a sender whose wait runs out. -/
def timedOut : Except String SendOutcome := .error "receiver did not respond within 60 seconds"

def start : BothEnds where
  now := 0
  sender := .writing
  startedAt := 0
  timedOutAt := 0
  receiver := .reading
  enqueuedAt := 0
  offerInFlight := false
  toSender := []
  read := []
  closeArrived := false
  exported := false

/-- A write of the receiver fails once the close has arrived. -/
def send (s : BothEnds) (m : Message) (ok err : ReceiverPhase) : BothEnds :=
  if s.closeArrived then { s with receiver := err }
  else { s with toSender := s.toSender ++ [m], receiver := ok }

inductive Action
  | writeOffer
  | timeOut
  | readDecision
  | readStatus
  | arriveOffer
  | enqueue
  | decide (accept : Bool)
  | elapse
  | writeDeclined
  | writeAccepted
  | look (free : Bool)
  | progress (bytes : UInt64)
  | exportFile
  | writeCompleted
  | writeFailed
  | closed
  | closeArrives
  | tick
  deriving DecidableEq, Repr

/-- The steps of `run_sender`. -/
def stepSender (s : BothEnds) : Action → Option BothEnds
  | .writeOffer =>
    match s.sender with
    | .writing => some { s with sender := .deciding, startedAt := s.now, offerInFlight := true }
    | _ => none
  | .timeOut =>
    match s.sender with
    | .deciding =>
      if s.startedAt + waitSeconds ≤ s.now then
        some { s with sender := .returned timedOut, timedOutAt := s.now }
      else none
    | _ => none
  | .readDecision =>
    match s.sender, s.toSender with
    | .deciding, .decision status :: rest =>
      some { s with
        sender := match status with
          | .accepted => .downloading
          | .declined => .returned (.ok .declined)
        toSender := rest
        read := s.read ++ [.decision status] }
    | _, _ => none
  | .readStatus =>
    match s.sender, s.toSender with
    | .downloading, .status status :: rest =>
      some { s with
        sender := match status with
          | .progress _ => .downloading
          | .completed => .returned (.ok .completed)
          | .failed => .returned (.error "download failed")
        toSender := rest
        read := s.read ++ [.status status] }
    | _, _ => none
  | _ => none

/-- The steps of the handler. -/
def stepReceiver (s : BothEnds) : Action → Option BothEnds
  | .enqueue =>
    if s.receiver = .offering then some { s with receiver := .waiting, enqueuedAt := s.now }
    else none
  | .decide accept =>
    if s.receiver = .waiting then
      some { s with receiver := if accept then .accepting else .declining }
    else none
  | .elapse =>
    if s.receiver = .waiting ∧ s.enqueuedAt + waitSeconds ≤ s.now then
      some { s with receiver := .declining }
    else none
  | .writeDeclined =>
    if s.receiver = .declining then some (s.send (.decision .declined) .closing .closing) else none
  | .writeAccepted =>
    if s.receiver = .accepting then some (s.send (.decision .accepted) .looking .returned) else none
  | .look free =>
    if s.receiver = .looking then
      some { s with receiver := if free then .downloading else .failing }
    else none
  | .progress bytes =>
    if s.receiver = .downloading then
      some (s.send (.status (.progress bytes)) .downloading .failing)
    else none
  | .exportFile =>
    if s.receiver = .downloading then some { s with receiver := .completing, exported := true }
    else none
  | .writeCompleted =>
    if s.receiver = .completing then some (s.send (.status .completed) .closing .returned) else none
  | .writeFailed =>
    if s.receiver = .failing then some (s.send (.status .failed) .closing .returned) else none
  | .closed =>
    if s.receiver = .closing ∧ s.closeArrived then some { s with receiver := .returned } else none
  | _ => none

/-- A timer that has run out fires before the clock moves. -/
def mayWait (s : BothEnds) : Bool :=
  (match s.sender with
    | .deciding => s.now < s.startedAt + waitSeconds
    | _ => true) &&
  (s.receiver ≠ .waiting || s.now < s.enqueuedAt + waitSeconds)

def step (s : BothEnds) : Action → Option BothEnds
  | .arriveOffer =>
    if s.offerInFlight ∧ s.receiver = .reading then
      some { s with offerInFlight := false, receiver := .offering }
    else none
  | .closeArrives =>
    match s.sender with
    | .returned _ => if s.offerInFlight then none else some { s with closeArrived := true }
    | _ => none
  | .tick => if s.mayWait then some { s with now := s.now + 1 } else none
  | a => (s.stepSender a).or (s.stepReceiver a)

def machine : Machine BothEnds Action where
  init s := s = start
  step := step

/-! ## What each end can know of the other -/

/-- Everything the receiver has written, oldest first. -/
def written (s : BothEnds) : List Message := s.read ++ s.toSender

/-- What the result of a sender rests on. -/
def Grounded (s : BothEnds) (result : Except String SendOutcome) : Prop :=
  (result = .ok .completed ∧ .status .completed ∈ s.read) ∨
  (result = .ok .declined ∧ .decision .declined ∈ s.read) ∨
  (result = .error "download failed" ∧ .status .failed ∈ s.read) ∨
  (result = timedOut ∧ s.startedAt + waitSeconds ≤ s.timedOutAt ∧ s.timedOutAt ≤ s.now)

/-- What the messages say of the file, and the result of the sender of the messages. -/
structure Truthful (s : BothEnds) : Prop where
  completed : .status .completed ∈ s.written → s.exported = true
  negative : .status .failed ∈ s.written ∨ .decision .declined ∈ s.written →
    s.exported = false ∧ s.receiver.early = false ∧ s.receiver ≠ .completing
  exporting : s.receiver = .completing → s.exported = true
  early : s.receiver.early = true → s.exported = false
  result : ∀ result, s.sender = .returned result → s.Grounded result

variable {s s' : BothEnds} {a : Action}

/-- Steps that write nothing and do not move the handler. -/
theorem Truthful.sender (h : Truthful s) (hreceiver : s'.receiver = s.receiver)
    (hexported : s'.exported = s.exported) (hwritten : s'.written = s.written)
    (hresult : ∀ result, s'.sender = .returned result → s'.Grounded result) : Truthful s' where
  completed hm := hexported ▸ h.completed (hwritten ▸ hm)
  negative hm := by
    rw [hexported, hreceiver]
    exact h.negative (hwritten ▸ hm)
  exporting hr := hexported ▸ h.exporting (hreceiver ▸ hr)
  early hr := hexported ▸ h.early (hreceiver ▸ hr)
  result := hresult

/-- An early handler moves on without a write and without an export. -/
theorem Truthful.move (h : Truthful s) (hearly : s.receiver.early = true)
    (hexported : s'.exported = s.exported) (hreceiver : s'.receiver ≠ .completing)
    (hwritten : s'.written = s.written)
    (hresult : ∀ result, s'.sender = .returned result → s'.Grounded result) : Truthful s' where
  completed hm := hexported ▸ h.completed (hwritten ▸ hm)
  negative hm := by
    have hlate := (h.negative (hwritten ▸ hm)).2.1
    exact absurd (hearly.symm.trans hlate) nofun
  exporting hr := absurd hr hreceiver
  early _ := hexported ▸ h.early hearly
  result := hresult

/-- An early handler writes, or fails to, and does not claim to have exported. -/
theorem Truthful.send (h : Truthful s) (hearly : s.receiver.early = true) {m : Message}
    {ok err : ReceiverPhase} (hm : m ≠ .status .completed)
    (hnegative : m = .status .failed ∨ m = .decision .declined → ok.early = false)
    (hok : ok ≠ .completing) (herr : err ≠ .completing) : Truthful (s.send m ok err) := by
  unfold BothEnds.send
  split
  · exact h.move hearly rfl herr rfl h.result
  · have hwritten : ∀ {m'}, m' ∈ s.read ++ (s.toSender ++ [m]) → m' ∈ s.written ∨ m' = m := by
      intro m' hm'
      simpa [written, or_assoc] using hm'
    have hfalse := h.early hearly
    refine ⟨fun hc => ?_, fun hn => ?_, fun hr => absurd hr hok, fun _ => hfalse, h.result⟩
    · exact h.completed ((hwritten hc).resolve_right (fun heq => hm heq.symm))
    -- an early handler has written nothing that ends the transfer
    · refine ⟨hfalse, ?_, hok⟩
      have hold : ∀ {m'}, m' ∈ s.written → m' = .status .failed ∨ m' = .decision .declined →
          ok.early = false := by
        rintro m' hm' (rfl | rfl)
        · exact absurd (hearly.symm.trans (h.negative (.inl hm')).2.1) nofun
        · exact absurd (hearly.symm.trans (h.negative (.inr hm')).2.1) nofun
      rcases hn with hn | hn
      · rcases hwritten hn with hn | hn
        · exact hold hn (.inl rfl)
        · exact hnegative (.inl hn.symm)
      · rcases hwritten hn with hn | hn
        · exact hold hn (.inr rfl)
        · exact hnegative (.inr hn.symm)

/-- The handler that has exported says so, or fails to. -/
theorem Truthful.sendCompleted (h : Truthful s) (hreceiver : s.receiver = .completing) :
    Truthful (s.send (.status .completed) .closing .returned) := by
  have hexported := h.exporting hreceiver
  have hnegative : ¬ (.status .failed ∈ s.written ∨ .decision .declined ∈ s.written) :=
    fun hn => (h.negative hn).2.2 hreceiver
  unfold BothEnds.send
  split
  · exact ⟨h.completed, fun hn => absurd hn hnegative, nofun, nofun, h.result⟩
  · refine ⟨fun _ => hexported, fun hn => absurd ?_ hnegative, nofun, nofun, h.result⟩
    simpa [written] using hn

theorem Truthful.stepSender (h : Truthful s) (hst : s.stepSender a = some s') : Truthful s' := by
  cases a <;> simp only [BothEnds.stepSender, reduceCtorEq] at hst
  case writeOffer =>
    split at hst
    · cases hst
      exact h.sender rfl rfl rfl nofun
    · cases hst
  case timeOut =>
    split at hst
    · obtain ⟨htime, ⟨⟩⟩ := Option.ite_none_right_eq_some.mp hst
      refine h.sender rfl rfl rfl ?_
      rintro _ ⟨⟩
      exact .inr (.inr (.inr ⟨rfl, htime, Nat.le_refl _⟩))
    · cases hst
  case readDecision =>
    split at hst
    · rename_i status rest hsender htoSender
      cases hst
      refine h.sender rfl rfl (by simp [written, htoSender]) (fun result hr => ?_)
      cases status with
      | accepted => cases hr
      | declined =>
        cases hr
        exact .inr (.inl ⟨rfl, by simp⟩)
    · cases hst
  case readStatus =>
    split at hst
    · rename_i status rest hsender htoSender
      cases hst
      refine h.sender rfl rfl (by simp [written, htoSender]) (fun result hr => ?_)
      cases status with
      | progress bytes => cases hr
      | completed =>
        cases hr
        exact .inl ⟨rfl, by simp⟩
      | failed =>
        cases hr
        exact .inr (.inr (.inl ⟨rfl, by simp⟩))
    · cases hst

theorem Truthful.stepReceiver (h : Truthful s) (hst : s.stepReceiver a = some s') :
    Truthful s' := by
  cases a <;> simp only [BothEnds.stepReceiver.eq_def, reduceCtorEq] at hst <;>
    obtain ⟨hreceiver, ⟨⟩⟩ := Option.ite_none_right_eq_some.mp hst
  case enqueue => exact h.move (by simp [hreceiver, ReceiverPhase.early]) rfl nofun rfl h.result
  case decide accept =>
    exact h.move (by simp [hreceiver, ReceiverPhase.early]) rfl (by cases accept <;> nofun) rfl
      h.result
  case elapse => exact h.move (by simp [hreceiver, ReceiverPhase.early]) rfl nofun rfl h.result
  case look free =>
    exact h.move (by simp [hreceiver, ReceiverPhase.early]) rfl (by cases free <;> nofun) rfl
      h.result
  case writeDeclined =>
    exact h.send (by simp [hreceiver, ReceiverPhase.early]) nofun (fun _ => rfl) nofun nofun
  case writeAccepted =>
    exact h.send (by simp [hreceiver, ReceiverPhase.early]) nofun (by simp) nofun nofun
  case progress bytes =>
    exact h.send (by simp [hreceiver, ReceiverPhase.early]) nofun (by simp) nofun nofun
  case writeFailed =>
    exact h.send (by simp [hreceiver, ReceiverPhase.early]) nofun (fun _ => rfl) nofun nofun
  case writeCompleted => exact h.sendCompleted hreceiver
  case exportFile =>
    have hnegative : ¬ (.status .failed ∈ s.written ∨ .decision .declined ∈ s.written) := by
      intro hn
      simpa [hreceiver, ReceiverPhase.early] using (h.negative hn).2.1
    exact ⟨fun _ => rfl, fun hn => absurd hn hnegative, fun _ => rfl, nofun, h.result⟩
  case closed =>
    have hnegative := h.negative
    refine ⟨h.completed, fun hn => ⟨(hnegative hn).1, rfl, nofun⟩, nofun, nofun, h.result⟩

/-- A step is one of the connection, of the clock, of the sender or of the handler. -/
theorem step_cases (hst : s.step a = some s') :
    (s.receiver = .reading ∧ s' = { s with offerInFlight := false, receiver := .offering }) ∨
    s' = { s with closeArrived := true } ∨ s' = { s with now := s.now + 1 } ∨
    s.stepSender a = some s' ∨ s.stepReceiver a = some s' := by
  unfold BothEnds.step at hst
  split at hst
  · obtain ⟨⟨-, hreceiver⟩, ⟨⟩⟩ := Option.ite_none_right_eq_some.mp hst
    exact .inl ⟨hreceiver, rfl⟩
  · split at hst
    · obtain ⟨-, ⟨⟩⟩ := Option.ite_none_left_eq_some.mp hst
      exact .inr (.inl rfl)
    · cases hst
  · obtain ⟨-, ⟨⟩⟩ := Option.ite_none_right_eq_some.mp hst
    exact .inr (.inr (.inl rfl))
  · rcases Option.or_eq_some_iff.mp hst with hst | ⟨-, hst⟩
    · exact .inr (.inr (.inr (.inl hst)))
    · exact .inr (.inr (.inr (.inr hst)))

theorem Truthful.step (h : Truthful s) (hst : s.step a = some s') : Truthful s' := by
  rcases step_cases hst with ⟨hreceiver, rfl⟩ | rfl | rfl | hst | hst
  · exact h.move (by simp [hreceiver, ReceiverPhase.early]) rfl nofun rfl h.result
  · exact h.sender rfl rfl rfl h.result
  · refine h.sender rfl rfl rfl (fun result hr => ?_)
    rcases h.result result hr with hc | hd | hf | ⟨ht, htime, hnow⟩
    · exact .inl hc
    · exact .inr (.inl hd)
    · exact .inr (.inr (.inl hf))
    · exact .inr (.inr (.inr ⟨ht, htime, Nat.le_succ_of_le hnow⟩))
  · exact h.stepSender hst
  · exact h.stepReceiver hst

theorem truthful (hs : machine.Reachable s) : Truthful s := by
  refine hs.invariant (I := Truthful) ?_ ?_
  · rintro _ rfl
    exact ⟨nofun, by simp [written, start], nofun, fun _ => rfl, nofun⟩
  · intro s a s' _ h _ hst
    exact h.step hst

/-! ## The sender reads what `awaitResponse` reads -/

/-- What `awaitResponse` makes of the messages the sender has read. -/
def verdictOfRead (s : BothEnds) (fin : Bool) : Except String SendOutcome :=
  outcome (awaitResponse { recv := ⟨s.read.flatMap Message.bytes, fin⟩ })

/-- Where the sender is, by the messages it has read. -/
def SenderRead (s : BothEnds) : Prop :=
  match s.sender with
  | .writing => s.read = []
  | .deciding => s.read = []
  | .downloading => ∃ values : List UInt64,
      s.read = .decision .accepted :: values.map (fun bytes => .status (.progress bytes))
  | .returned result => result = timedOut ∨ ∀ fin, s.verdictOfRead fin = result

theorem senderRead_congr (h : SenderRead s) (hsender : s'.sender = s.sender)
    (hread : s'.read = s.read) : SenderRead s' := by
  unfold SenderRead verdictOfRead at h ⊢
  rwa [hsender, hread]

/-- The bytes of an accepted transfer up to its last message. -/
theorem bytes_downloading (values : List UInt64) (status : DownloadStatus) :
    ((.decision .accepted :: values.map (fun bytes => .status (.progress bytes)) ++
      [.status status] : List Message)).flatMap Message.bytes =
      1 :: (DownloadStatus.progressFrames values ++ status.frame) := by
  simp [Message.bytes, DecisionStatus.toU8, DownloadStatus.progressFrames, List.flatMap_map]

/-- The status that ends a transfer is what the loop of `downloaded` returns. -/
theorem awaitResponse_last (values : List UInt64) (status : DownloadStatus) (fin : Bool) :
    (status = .completed → outcome (awaitResponse
      { recv := ⟨1 :: (DownloadStatus.progressFrames values ++ status.frame), fin⟩ }) =
        .ok .completed) ∧
    (status = .failed → outcome (awaitResponse
      { recv := ⟨1 :: (DownloadStatus.progressFrames values ++ status.frame), fin⟩ }) =
        .error "download failed") := by
  have hrun : awaitResponse
      { recv := ⟨1 :: (DownloadStatus.progressFrames values ++ status.frame), fin⟩ } =
      downloaded { recv := ⟨status.frame ++ [], fin⟩, progress := values } := by
    rw [List.append_nil]
    exact downloaded_progressFrames values status.frame fin []
  have hread := DownloadStatus.readFrom_frame status [] fin
  rw [hrun]
  constructor
  · rintro rfl
    rw [downloaded_of_completed hread]
    rfl
  · rintro rfl
    rw [downloaded_of_failed hread]
    rfl

theorem SenderRead.stepSender (h : SenderRead s) (hst : s.stepSender a = some s') :
    SenderRead s' := by
  cases a <;> simp only [BothEnds.stepSender, reduceCtorEq] at hst
  case writeOffer =>
    split at hst
    · rename_i hsender
      cases hst
      simpa [SenderRead, hsender] using h
    · cases hst
  case timeOut =>
    split at hst
    · obtain ⟨-, ⟨⟩⟩ := Option.ite_none_right_eq_some.mp hst
      exact .inl rfl
    · cases hst
  case readDecision =>
    split at hst
    · rename_i status rest hsender htoSender
      have hnone : s.read = [] := by simpa [SenderRead, hsender] using h
      cases hst
      cases status with
      | accepted => exact ⟨[], by simp [hnone]⟩
      | declined => exact .inr (fun fin => by simp [verdictOfRead, hnone]; rfl)
    · cases hst
  case readStatus =>
    split at hst
    · rename_i status rest hsender htoSender
      obtain ⟨values, hread⟩ : ∃ values : List UInt64, s.read =
          .decision .accepted :: values.map (fun bytes => .status (.progress bytes)) := by
        simpa [SenderRead, hsender] using h
      cases hst
      cases status with
      | progress bytes => exact ⟨values ++ [bytes], by simp [hread]⟩
      | completed =>
        refine .inr (fun fin => ?_)
        simp only [verdictOfRead, hread, bytes_downloading]
        exact (awaitResponse_last values .completed fin).1 rfl
      | failed =>
        refine .inr (fun fin => ?_)
        simp only [verdictOfRead, hread, bytes_downloading]
        exact (awaitResponse_last values .failed fin).2 rfl
    · cases hst

/-- The handler changes nothing at the sender. -/
theorem stepReceiver_frame (hst : s.stepReceiver a = some s') :
    s'.sender = s.sender ∧ s'.read = s.read := by
  have hsend : ∀ m ok err, (s.send m ok err).sender = s.sender ∧
      (s.send m ok err).read = s.read := by
    intro m ok err
    unfold BothEnds.send
    split <;> exact ⟨rfl, rfl⟩
  cases a <;> simp only [BothEnds.stepReceiver.eq_def, reduceCtorEq] at hst <;>
    obtain ⟨-, ⟨⟩⟩ := Option.ite_none_right_eq_some.mp hst
  case writeDeclined | writeAccepted | progress | writeCompleted | writeFailed => exact hsend ..
  all_goals exact ⟨rfl, rfl⟩

theorem SenderRead.step (h : SenderRead s) (hst : s.step a = some s') : SenderRead s' := by
  rcases step_cases hst with ⟨-, rfl⟩ | rfl | rfl | hst | hst
  · exact senderRead_congr h rfl rfl
  · exact senderRead_congr h rfl rfl
  · exact senderRead_congr h rfl rfl
  · exact h.stepSender hst
  · obtain ⟨hsender, hread⟩ := stepReceiver_frame hst
    exact senderRead_congr h hsender hread

/-- **The sender of this model is the one that reads bytes.**  What `run_sender` returned,
if not its timeout, is what `awaitResponse` makes of the bytes of the messages it read. -/
theorem returned_eq_verdict (hs : machine.Reachable s) {result : Except String SendOutcome}
    (hreturned : s.sender = .returned result) (hresult : result ≠ timedOut) (fin : Bool) :
    s.verdictOfRead fin = result := by
  have hread : SenderRead s := by
    refine hs.invariant (I := SenderRead) ?_ ?_
    · rintro _ rfl
      rfl
    · intro s a s' _ h _ hst
      exact h.step hst
  simp only [SenderRead, hreturned] at hread
  exact hread.resolve_left hresult fin

/-- **Both ends agree unless the sender's wait runs out.**  From the return of `run_sender`
on, it returned `Completed` exactly if the receiver has exported the file and the sender's
own wait for the decision had not run out; the only error it can have returned for a file
the receiver exports is that timeout, and it was returned 60 seconds or more after the offer
had been written; and a declined offer is not exported. -/
theorem ends_agree (hs : machine.Reachable s) {result : Except String SendOutcome}
    (hreturned : s.sender = .returned result) :
    (result = .ok .completed ↔ s.exported = true ∧ result ≠ timedOut) ∧
    (result = .ok .declined → s.exported = false) ∧
    (∀ error, result = .error error → s.exported = true →
      result = timedOut ∧ s.startedAt + waitSeconds ≤ s.timedOutAt ∧ s.timedOutAt ≤ s.now) := by
  have h := truthful hs
  have hwritten : ∀ {m}, m ∈ s.read → m ∈ s.written := fun hm => List.mem_append_left _ hm
  rcases h.result result hreturned with ⟨rfl, hm⟩ | ⟨rfl, hm⟩ | ⟨rfl, hm⟩ |
    ⟨rfl, htime, hnow⟩
  · have hexported := h.completed (hwritten hm)
    simp [hexported, timedOut]
  · have hexported := (h.negative (.inr (hwritten hm))).1
    simp [hexported]
  · have hexported := (h.negative (.inl (hwritten hm))).1
    simp [hexported]
  · simp [timedOut, htime, hnow]

/-- The offer is accepted and saved, and both ends finish. -/
def acceptedRun : List Action :=
  [.writeOffer, .arriveOffer, .enqueue, .decide true, .writeAccepted, .readDecision, .look true,
    .progress 3, .readStatus, .exportFile, .writeCompleted, .readStatus, .closeArrives, .closed]

theorem ends_agree_acceptedRun :
    ∃ s, machine.Reachable s ∧ s.sender = .returned (.ok .completed) ∧ s.exported = true := by
  have hstart : machine.Reachable start := .init rfl
  have hs := hstart.exec (rfl : machine.exec start acceptedRun = some _)
  exact ⟨_, hs, rfl, ((ends_agree hs rfl).1.mp rfl).1⟩

/-- The offer enters the queue a second after it was written, so the user still has a second
when the sender gives up.  The offer is accepted in the same second, before the close arrives,
and the receiver saves the file before it learns that nobody waits for it. -/
def lateRun : List Action :=
  [.writeOffer, .tick, .arriveOffer, .enqueue] ++ List.replicate 59 .tick ++
    [.timeOut, .decide true, .writeAccepted, .look true, .exportFile, .writeCompleted,
      .closeArrives, .closed]

/-- `run_sender` reports its timeout for a file the receiver has saved. -/
theorem lateRun_disagrees :
    ∃ s, machine.Reachable s ∧ s.sender = .returned timedOut ∧ s.receiver = .returned ∧
      s.exported = true := by
  have hstart : machine.Reachable start := .init rfl
  exact ⟨_, hstart.exec (rfl : machine.exec start lateRun = some _), rfl, rfl, rfl⟩

end BothEnds
end IrohShare
