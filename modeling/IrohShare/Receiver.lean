import IrohShare.Protocol
import IrohShare.Path

/-!
# The receiver's side of one transfer

What `OfferProtocol::accept` does once the decision is in: `decline_decision`, or
`accept_decision` around `download`.  The file system, the blob store and the
network are a `Host`, which answers each question the code asks of them; the
handler's own effects are the fields of `Receiving`.
-/
namespace IrohShare
open ByteStream

inductive OfferDecision
  | accept (downloadDir : String)
  | decline
  deriving DecidableEq, Repr

/-- An item of the downloader's stream; `other` is every item the loop skips. -/
inductive DownloadProgressItem
  | progress (bytes : UInt64)
  | error (error : String)
  | downloadError
  | other
  deriving DecidableEq, Repr

/-- The answers of the outside world: `blob` is the content a hash names, and the
other fields say whether a request fails. -/
structure Host where
  tryExists : String → Except String Bool
  tempTag : Hash → BlobFormat → Except String Unit
  downloadStream : Hash → Option EndpointId → Except String (List DownloadProgressItem)
  exportBlob : Hash → String → Except String Unit
  blob : Hash → List UInt8

/-- What a handler changes: its end of the response stream, the values it has put on
`progress_tx` (oldest first; `watched` says the channel has a receiver), and the
files it exported.  Two fields only record: `reported`, the progress values whose
frames were written whole, and `returned`, what `download` returned if it was called. -/
structure Receiving where
  send : SendStream
  progress : List UInt64 := []
  watched : Bool := true
  files : List (String × List UInt8) := []
  reported : List UInt64 := []
  returned : Option (Except String Unit) := none

namespace Receiving

/-- An operation on the response stream. -/
def onSend {α : Type} : EStateM String SendStream α → EStateM String Receiving α :=
  onPart Receiving.send (fun send s => { s with send })

end Receiving
open Receiving

/-- The start of `OfferProtocol::accept`: read the offer, and refuse it unless its
ticket names the peer that sent it. -/
def receiveOffer (codec : TicketCodec) (remote : EndpointId) : EStateM String RecvStream Offer := do
  let offer ← Offer.readFrom codec
  if offer.ticket.addr.id ≠ remote then throw "not allowed"
  return offer

/-- A question to the host. -/
def ask {α : Type} (answer : Except String α) : EStateM String Receiving α := fun s =>
  match answer with
  | .ok a => .ok a s
  | .error e => .error e s

/-- `progress_tx.send`. -/
def publish (bytes : UInt64) : EStateM String Receiving Unit := fun s =>
  if s.watched then .ok () { s with progress := s.progress ++ [bytes] }
  else .error "channel closed" s

/-- `progress_tx.send_replace`. -/
def publishReplace (bytes : UInt64) : EStateM String Receiving Unit := fun s =>
  .ok () { s with progress := s.progress ++ [bytes] }

/-- `send_progress`: to the local channel, then to the sender. -/
def sendProgress (bytes : UInt64) : EStateM String Receiving Unit := do
  publish bytes
  onSend (DownloadStatus.progress bytes).writeTo
  modify (fun s => { s with reported := s.reported ++ [bytes] })

/-- The loop of `download` over the items of the downloader's stream. -/
def forwardItems : List DownloadProgressItem → EStateM String Receiving Unit
  | [] => pure ()
  | .progress bytes :: items => do
    sendProgress bytes
    forwardItems items
  | .error error :: _ => throw s!"download failed {error}"
  | .downloadError :: _ => throw "download failed"
  | .other :: items => forwardItems items

/-- `download`. -/
def download (host : Host) (downloadDir : String) (offer : Offer) :
    EStateM String Receiving Unit := do
  let filename ← orThrow "offer contains no filename" (Path.fileName offer.filename)
  let target := Path.join downloadDir filename
  if ← ask (host.tryExists target) then throw s!"file {target} already exists"
  ask (host.tempTag offer.ticket.hash offer.ticket.format)
  let items ← context "failed to download"
    (ask (host.downloadStream offer.ticket.hash (some offer.ticket.addr.id)))
  forwardItems items
  context "failed to export" (ask (host.exportBlob offer.ticket.hash target))
  modify (fun s => { s with files := s.files ++ [(target, host.blob offer.ticket.hash)] })
  publishReplace offer.filesize

/-- `accept_decision`. -/
def acceptDecision (host : Host) (downloadDir : String) (offer : Offer) :
    EStateM String Receiving Unit := do
  onSend (SendStream.writeU8 DecisionStatus.accepted.toU8)
  let returned ← attempt (download host downloadDir offer)
  modify (fun s => { s with returned := some returned })
  match returned with
  | .error e =>
    onSend DownloadStatus.failed.writeTo
    let _ ← attempt (onSend SendStream.finish)
    throw e
  | .ok () =>
    onSend DownloadStatus.completed.writeTo
    onSend SendStream.finish

/-- `decline_decision`. -/
def declineDecision : EStateM String Receiving Unit := do
  let _ ← attempt (onSend (SendStream.writeU8 DecisionStatus.declined.toU8))
  let _ ← attempt (onSend SendStream.finish)
  throw "not allowed"

/-- How the wait for the user's decision ended. -/
inductive DecisionWait
  | received (decision : OfferDecision)
  | timedOut
  | dropped
  deriving DecidableEq, Repr

/-- `decision_ui`. -/
def DecisionWait.decisionUi : DecisionWait → Option OfferDecision
  | received decision => some decision
  | timedOut => none
  | dropped => none

/-- The end of `OfferProtocol::accept`, from the decision on. -/
def respond (host : Host) (offer : Offer) (wait : DecisionWait) : EStateM String Receiving Unit :=
  match wait.decisionUi with
  | some (.accept downloadDir) => acceptDecision host downloadDir offer
  | _ => declineDecision

/-- The same host, with a downloader that serves one request only. -/
def Host.onlyFrom (host : Host) (hash : Hash) (provider : EndpointId) : Host :=
  { host with downloadStream := fun hash' provider' =>
      if hash' = hash ∧ provider' = some provider then host.downloadStream hash' provider'
      else .error "no such request" }

/-! ## What `download` does -/

theorem keeps_ask {P : Receiving → Prop} {α : Type} (answer : Except String α) :
    Keeps P (ask answer) := by
  intro s hs
  cases answer <;> exact hs

/-- An operation on the response stream changes nothing else. -/
theorem onSend_ok {α : Type} {x : EStateM String SendStream α} {s s' : Receiving} {a : α}
    (h : (onSend x).run s = .ok a s') :
    ∃ send, x.run s.send = .ok a send ∧ s' = { s with send } := by
  simp only [EStateM.run, onSend, onPart] at h ⊢
  split at h
  · rename_i b send hx
    cases h
    exact ⟨send, hx, rfl⟩
  · cases h

theorem onSend_error {α : Type} {x : EStateM String SendStream α} {s s' : Receiving} {e : String}
    (h : (onSend x).run s = .error e s') :
    ∃ send, x.run s.send = .error e send ∧ s' = { s with send } := by
  simp only [EStateM.run, onSend, onPart] at h ⊢
  split at h
  · cases h
  · rename_i e' send hx
    cases h
    exact ⟨send, hx, rfl⟩

/-- The three ways `send_progress` leaves the handler: nothing written, the write
failed, or the frame written whole and recorded. -/
theorem sendProgress_final (bytes : UInt64) (s : Receiving) :
    ∃ progress, final ((sendProgress bytes).run s) = { s with progress } ∨
      (∃ e send, (DownloadStatus.progress bytes).writeTo.run s.send = .error e send ∧
        final ((sendProgress bytes).run s) = { s with progress, send }) ∨
      ∃ send, (DownloadStatus.progress bytes).writeTo.run s.send = .ok () send ∧
        final ((sendProgress bytes).run s) =
          { s with progress, send, reported := s.reported ++ [bytes] } := by
  rw [sendProgress, EStateM.run_bind]
  by_cases hw : s.watched = true
  · have hpub : (publish bytes).run s = .ok () { s with progress := s.progress ++ [bytes] } := by
      simp [publish, EStateM.run, hw]
    refine ⟨s.progress ++ [bytes], .inr ?_⟩
    rw [hpub]
    dsimp only
    rw [EStateM.run_bind]
    cases hs : (onSend (DownloadStatus.progress bytes).writeTo).run
        { s with progress := s.progress ++ [bytes] } with
    | ok _ t =>
      obtain ⟨send, hwrite, rfl⟩ := onSend_ok hs
      exact .inr ⟨send, hwrite, rfl⟩
    | error e t =>
      obtain ⟨send, hwrite, rfl⟩ := onSend_error hs
      exact .inl ⟨e, send, hwrite, rfl⟩
  · have hpub : (publish bytes).run s = .error "channel closed" s := by
      simp [publish, EStateM.run, hw]
    exact ⟨s.progress, .inl (by rw [hpub]; rfl)⟩

theorem keeps_files_sendProgress (files : List (String × List UInt8)) (bytes : UInt64) :
    Keeps (fun s => s.files = files) (sendProgress bytes) := by
  intro s hs
  obtain ⟨progress, h | ⟨e, send, -, h⟩ | ⟨send, -, h⟩⟩ := sendProgress_final bytes s <;>
    · rw [h]
      exact hs

/-- What each progress report keeps, the whole loop keeps. -/
theorem keeps_forwardItems {P : Receiving → Prop} (hP : ∀ bytes, Keeps P (sendProgress bytes))
    (items : List DownloadProgressItem) : Keeps P (forwardItems items) := by
  induction items with
  | nil => exact .pure ()
  | cons item items ih =>
    cases item with
    | progress bytes => exact (hP bytes).bind (fun _ => ih)
    | error e => exact .throw _
    | downloadError => exact .throw _
    | other => exact ih

variable {host : Host} {dir : String} {offer : Offer}

theorem ask_ok {α : Type} {answer : Except String α} {s s' : Receiving} {a : α}
    (h : (ask answer).run s = .ok a s') : answer = .ok a ∧ s' = s := by
  cases answer with
  | ok b =>
    cases h
    exact ⟨rfl, rfl⟩
  | error e => cases h

/-- **A successful `download`.**  The name had a last component, nothing was at the
target, the blob of the ticket was exported there, and the size of the offer was the
last value published. -/
theorem download_ok {s s' : Receiving} (h : (download host dir offer).run s = .ok () s') :
    ∃ name, Path.fileName offer.filename = some name ∧
      host.tryExists (Path.join dir name) = .ok false ∧
      s'.files = s.files ++ [(Path.join dir name, host.blob offer.ticket.hash)] ∧
      ∃ earlier, s'.progress = earlier ++ [offer.filesize] := by
  obtain ⟨name, s₁, hname, h⟩ := bind_ok h
  obtain ⟨hname, hs₁⟩ := orThrow_ok hname
  obtain ⟨there, s₂, hthere, h⟩ := bind_ok h
  obtain ⟨hthere, hs₂⟩ := ask_ok hthere
  split at h
  · cases h
  rename_i hnot
  have hfalse : there = false := by simpa using hnot
  obtain ⟨⟨⟩, s₃, htag, h⟩ := bind_ok h
  obtain ⟨-, hs₃⟩ := ask_ok htag
  obtain ⟨items, s₄, hitems, h⟩ := bind_ok h
  obtain ⟨-, hs₄⟩ := ask_ok (context_ok hitems)
  obtain ⟨⟨⟩, s₅, hforward, h⟩ := bind_ok h
  obtain ⟨⟨⟩, s₆, hexport, h⟩ := bind_ok h
  obtain ⟨-, hs₆⟩ := ask_ok (context_ok hexport)
  have hfiles : s₅.files = s₄.files := by
    have hkeep := keeps_forwardItems (keeps_files_sendProgress s₄.files) items s₄ rfl
    rwa [hforward] at hkeep
  cases h
  refine ⟨name, hname, hfalse ▸ hthere, ?_, s₆.progress, rfl⟩
  show s₆.files ++ _ = _
  rw [hs₆, hfiles, hs₄, hs₃, hs₂, hs₁]

/-- The downloader is asked for the hash of the ticket, from the endpoint of the
ticket, and for nothing else. -/
theorem download_onlyFrom (host : Host) (dir : String) (offer : Offer) :
    download host dir offer =
      download (host.onlyFrom offer.ticket.hash offer.ticket.addr.id) dir offer := by
  simp [download, Host.onlyFrom]

end IrohShare
