import IrohShare.Protocol
import IrohShare.Path

/-!
# The sender

`run_sender` after the offer is written: it reads the receiver's decision and then
the download statuses, handing each progress value to its progress channel.
-/
namespace IrohShare
open ByteStream

inductive SendOutcome
  | completed
  | declined
  deriving DecidableEq, Repr

/-- What a waiting sender changes: its end of the response stream, and the values it
has put on `progress_tx`, oldest first.  `watched` says that the channel still has a
receiver; sending on one that has none fails. -/
structure Sending where
  recv : RecvStream
  progress : List UInt64 := []
  watched : Bool := true
  deriving DecidableEq, Repr

/-- `downloaded`: read statuses until one ends the transfer. -/
def downloaded (s : Sending) : EStateM.Result String Sending SendOutcome :=
  match h : DownloadStatus.readFrom.run s.recv with
  | .error e recv => .error e { s with recv }
  | .ok (.progress bytes) recv =>
    if s.watched then
      have := DownloadStatus.readFrom_length h
      downloaded { s with recv, progress := s.progress ++ [bytes] }
    else .error "channel closed" { s with recv }
  | .ok .completed recv => .ok .completed { s with recv }
  | .ok .failed recv => .error "download failed" { s with recv }
termination_by s.recv.bytes.length

/-- The end of `run_sender`: the decision, and after an accept the statuses. -/
def awaitResponse (s : Sending) : EStateM.Result String Sending SendOutcome :=
  match transferDecision.run s.recv with
  | .error e recv => .error e { s with recv }
  | .ok .declined recv => .ok .declined { s with recv }
  | .ok .accepted recv => downloaded { s with recv }

/-! ## What the loop does with one status -/

theorem downloaded_of_progress {s : Sending} {bytes : UInt64} {recv : RecvStream}
    (hwatched : s.watched = true)
    (h : DownloadStatus.readFrom.run s.recv = .ok (.progress bytes) recv) :
    downloaded s = downloaded { s with recv, progress := s.progress ++ [bytes] } := by
  rw [downloaded]
  split <;> simp_all

theorem downloaded_of_completed {s : Sending} {recv : RecvStream}
    (h : DownloadStatus.readFrom.run s.recv = .ok .completed recv) :
    downloaded s = .ok .completed { s with recv } := by
  rw [downloaded]
  split <;> simp_all

theorem downloaded_of_failed {s : Sending} {recv : RecvStream}
    (h : DownloadStatus.readFrom.run s.recv = .ok .failed recv) :
    downloaded s = .error "download failed" { s with recv } := by
  rw [downloaded]
  split <;> simp_all

theorem downloaded_of_error {s : Sending} {recv : RecvStream} {e : String}
    (h : DownloadStatus.readFrom.run s.recv = .error e recv) :
    downloaded s = .error e { s with recv } := by
  rw [downloaded]
  split <;> simp_all

/-- The loop takes whole progress frames off the front of the stream. -/
theorem downloaded_progressFrames (values : List UInt64) (rest : List UInt8) (fin : Bool)
    (progress : List UInt64) :
    downloaded ⟨⟨DownloadStatus.progressFrames values ++ rest, fin⟩, progress, true⟩ =
      downloaded ⟨⟨rest, fin⟩, progress ++ values, true⟩ := by
  induction values generalizing progress with
  | nil => simp
  | cons v values ih =>
    have hread := DownloadStatus.readFrom_frame (.progress v)
      (DownloadStatus.progressFrames values ++ rest) fin
    rw [← List.append_assoc, ← DownloadStatus.progressFrames_cons] at hread
    rw [downloaded_of_progress rfl hread, ih]
    simp

/-- Whole progress frames and a frame cut short: the loop fails after pushing the
whole ones. -/
theorem downloaded_cut (values : List UInt64) {part : List UInt8}
    (hpart : DownloadStatus.Partial part) (fin : Bool) :
    ∃ e s, downloaded ⟨⟨DownloadStatus.progressFrames values ++ part, fin⟩, [], true⟩ =
      .error e s ∧ s.progress = values := by
  obtain ⟨e, r, hread⟩ := DownloadStatus.readFrom_partial hpart fin
  rw [downloaded_progressFrames]
  exact ⟨e, _, downloaded_of_error hread, by simp⟩

end IrohShare
