import IrohShare.Transition
import IrohShare.Watch
import IrohShare.Sender

/-!
# The progress of a send

`send_file` hands the sending side of a watch channel to `run_sender` and the receiving
side to a task that emits `send-progress`.  `run_sender` drops its side when it returns,
whichever way; the task may look at any time, also after that.

The receiver's answer comes as one stream, with all the bytes it will carry.  The borrow
of the task lasts through its emit, so that the two are one step.
-/
namespace IrohShare
open ByteStream Transition

/-- The payload of `send-progress`. -/
structure TransferProgress where
  downloaded : UInt64
  total : UInt64
  deriving DecidableEq, Repr

/-- Where `run_sender` is: not yet answered, in `downloaded` with the rest of the stream
to read, or returned. -/
inductive RunSender
  | offering
  | downloading (recv : RecvStream)
  | returned (result : Except String SendOutcome)

/-- One `send_file` after its checks: `run_sender`, the channel and the task.  `decoded`
and `emitted` say what has been read and emitted, oldest first, and `response` what the
receiver answers with. -/
structure SendFile where
  total : UInt64
  phase : RunSender := .offering
  channel : Watch.Channel UInt64 := { value := 0 }
  reader : Watch.Reader := {}
  response : Option RecvStream := none
  decoded : List UInt64 := []
  emitted : List TransferProgress := []

namespace SendFile

/-- What happens in `run_sender` (`fail`, `answer`, `read`) and in the task.  `fail` is
any error before the answer, the timeout among them. -/
inductive Action
  | fail (error : String)
  | answer (recv : RecvStream)
  | read
  | wake
  | emit

/-- `run_sender` returns and drops `progress_tx`. -/
def finish (s : SendFile) (result : Except String SendOutcome) : SendFile :=
  { s with phase := .returned result, channel := s.channel.close }

/-- The decision at the front of the answer. -/
def answered (s : SendFile) (recv : RecvStream) : SendFile :=
  match transferDecision.run recv with
  | .error e _ => s.finish (.error e)
  | .ok .declined _ => s.finish (.ok .declined)
  | .ok .accepted recv => { s with phase := .downloading recv }

/-- One turn of the loop of `downloaded`; sending fails if the task is gone. -/
def readStatus (s : SendFile) (recv : RecvStream) : SendFile :=
  match DownloadStatus.readFrom.run recv with
  | .error e _ => s.finish (.error e)
  | .ok (.progress bytes) recv =>
    if s.reader.phase = .ended then s.finish (.error "channel closed")
    else
      { s with
        phase := .downloading recv
        channel := s.channel.send bytes
        decoded := s.decoded ++ [bytes] }
  | .ok .completed _ => s.finish (.ok .completed)
  | .ok .failed _ => s.finish (.error "download failed")

def step (s : SendFile) : Action → Option SendFile
  | .fail e =>
    match s.phase with
    | .offering => some (s.finish (.error e))
    | _ => none
  | .answer recv =>
    match s.phase with
    | .offering => some ({ s with response := some recv }.answered recv)
    | _ => none
  | .read =>
    match s.phase with
    | .downloading recv => some (s.readStatus recv)
    | _ => none
  | .wake => (s.reader.wake s.channel).map (fun reader => { s with reader })
  | .emit =>
    match s.reader.take s.channel with
    | some (downloaded, reader) =>
      reader.resume.map
        (fun reader => { s with reader, emitted := s.emitted ++ [⟨downloaded, s.total⟩] })
    | none => none

/-- `send_file` of a file of `total` bytes. -/
def machine (total : UInt64) : Machine SendFile Action where
  init s := s = { total }
  step := step

/-! ## What a step does to the channel and to the task -/

/-- What each step can do. -/
inductive Step (s : SendFile) : SendFile → Prop
  | finish (response : Option RecvStream) (result : Except String SendOutcome) :
      s.channel.closed = false → Step s { s.finish result with response }
  | accepted (recv rest : RecvStream) : s.phase = .offering →
      Step s { s with response := some recv, phase := .downloading rest }
  | progress (bytes : UInt64) (recv : RecvStream) : s.channel.closed = false →
      Step s { s with phase := .downloading recv, channel := s.channel.send bytes,
                      decoded := s.decoded ++ [bytes] }
  | wake (reader : Watch.Reader) : s.reader.wake s.channel = some reader →
      Step s { s with reader }
  | emit (downloaded : UInt64) (taking reader : Watch.Reader) :
      s.reader.take s.channel = some (downloaded, taking) → taking.resume = some reader →
      Step s { s with reader, emitted := s.emitted ++ [⟨downloaded, s.total⟩] }

/-- `progress_tx` lives until `run_sender` returns. -/
def HoldsSender (s : SendFile) : Prop :=
  s.channel.closed = true ↔ ∃ result, s.phase = .returned result

theorem HoldsSender.open_of_ne {s : SendFile} (h : s.HoldsSender)
    (hne : ∀ result, s.phase ≠ .returned result) : s.channel.closed = false := by
  rw [← Bool.not_eq_true]
  intro hclosed
  obtain ⟨result, hret⟩ := h.mp hclosed
  exact hne result hret

theorem step_spec {s s' : SendFile} {a : Action} (hholds : s.HoldsSender)
    (h : s.step a = some s') : s.Step s' := by
  cases a with
  | fail e =>
    simp only [step] at h
    split at h
    · rename_i hphase
      cases h
      exact .finish s.response _ (hholds.open_of_ne (by rw [hphase]; nofun))
    · cases h
  | answer recv =>
    simp only [step] at h
    split at h
    · rename_i hphase
      have hopen := hholds.open_of_ne (by rw [hphase]; nofun)
      cases h
      unfold answered
      split
      · exact .finish (some recv) _ hopen
      · exact .finish (some recv) _ hopen
      · exact .accepted recv _ hphase
    · cases h
  | read =>
    simp only [step] at h
    split at h
    · rename_i hphase
      have hopen := hholds.open_of_ne (by rw [hphase]; nofun)
      cases h
      unfold readStatus
      split
      · exact .finish s.response _ hopen
      · split
        · exact .finish s.response _ hopen
        · exact .progress _ _ hopen
      · exact .finish s.response _ hopen
      · exact .finish s.response _ hopen
    · cases h
  | wake =>
    obtain ⟨reader, hwake, rfl⟩ := Option.map_eq_some_iff.mp h
    exact .wake reader hwake
  | emit =>
    simp only [step] at h
    split at h
    · rename_i downloaded taking htake
      obtain ⟨reader, hresume, rfl⟩ := Option.map_eq_some_iff.mp h
      exact .emit downloaded taking reader htake hresume
    · cases h

theorem HoldsSender.step {s s' : SendFile} (h : s.HoldsSender) (hst : s.Step s') :
    s'.HoldsSender := by
  cases hst with
  | finish response result hopen => exact iff_of_true rfl ⟨result, rfl⟩
  | accepted recv rest hphase =>
    have hopen := h.open_of_ne (by rw [hphase]; nofun)
    exact iff_of_false (by simp [hopen]) nofun
  | progress bytes recv hopen => exact iff_of_false (by simp [Watch.Channel.send, hopen]) nofun
  | wake | emit => exact h

/-- The channel carries what was decoded, the task's versions lie in it, and what was
emitted are the values of those versions. -/
structure Forwards (s : SendFile) : Prop where
  holds : s.HoldsSender
  history : s.channel.History 0 s.decoded
  reader : s.reader.Ok s.channel 0
  emitted : s.emitted.map (fun e => some e.downloaded) =
    s.reader.taken.map (Watch.Channel.valueAt s.decoded)
  total : ∀ e ∈ s.emitted, e.total = s.total
  idle : s.reader.phase ≠ .working

/-- More decoded values do not change those of the versions taken. -/
theorem Forwards.valueAt_append {s : SendFile} (h : s.Forwards) (more : List UInt64) :
    s.reader.taken.map (Watch.Channel.valueAt (s.decoded ++ more)) =
      s.reader.taken.map (Watch.Channel.valueAt s.decoded) := by
  refine List.map_congr_left fun n hn => ?_
  obtain ⟨hpos, hle⟩ := h.reader.mem_taken hn
  exact Watch.Channel.valueAt_append hpos (h.history.version ▸ hle)

theorem Forwards.step {s s' : SendFile} (h : s.Forwards) (hst : s.Step s') : s'.Forwards := by
  have hholds := h.holds.step hst
  cases hst with
  | finish response result hopen =>
    exact ⟨hholds, h.history.close, h.reader.close, h.emitted, h.total, h.idle⟩
  | accepted recv rest hphase =>
    exact ⟨hholds, h.history, h.reader, h.emitted, h.total, h.idle⟩
  | progress bytes recv hopen =>
    refine ⟨hholds, h.history.send bytes, h.reader.send hopen bytes, ?_, h.total, h.idle⟩
    exact h.emitted.trans (h.valueAt_append [bytes]).symm
  | wake reader hwake =>
    refine ⟨hholds, h.history, h.reader.wake hwake, ?_, h.total, ?_⟩ <;>
      obtain ⟨-, ⟨-, rfl⟩ | ⟨-, rfl⟩⟩ := Watch.Reader.wake_spec hwake
    · exact h.emitted
    · exact h.emitted
    · nofun
    · nofun
  | emit downloaded taking reader htake hresume =>
    obtain ⟨hpos, hok⟩ := h.reader.take htake
    refine ⟨hholds, h.history, hok.resume hresume, ?_, ?_, ?_⟩ <;>
      obtain ⟨-, rfl, rfl⟩ := Watch.Reader.take_spec htake <;>
      obtain ⟨-, rfl⟩ := Watch.Reader.resume_spec hresume
    · simp only [List.map_append, List.map_cons, List.map_nil]
      rw [h.emitted, h.history.valueAt hpos]
    · intro e he
      rcases List.mem_append.mp he with hold | hnew
      · exact h.total e hold
      · rw [List.mem_singleton.mp hnew]
    · nofun

theorem reachable_forwards {total : UInt64} {s : SendFile} (hs : (machine total).Reachable s) :
    s.Forwards := by
  refine hs.invariant (I := Forwards) ?_ ?_
  · rintro s rfl
    exact ⟨iff_of_false nofun nofun, .new 0, .new (Nat.le_refl 0), rfl, nofun, nofun⟩
  · intro s a s' _ hfwd _ hst
    exact hfwd.step (step_spec hfwd.holds hst)

/-! ## What the task is handed is what `downloaded` pushes -/

/-- `decoded` follows the loop of `downloaded` over the receiver's answer. -/
def Decodes (s : SendFile) : Prop :=
  match s.phase with
  | .offering => s.response = none ∧ s.decoded = []
  | .downloading recv =>
    ∃ r, s.response = some r ∧ awaitResponse { recv := r } = downloaded ⟨recv, s.decoded, true⟩
  | .returned result =>
    (s.response = none ∧ s.decoded = []) ∨
      ∃ r, s.response = some r ∧ outcome (awaitResponse { recv := r }) = result ∧
        (final (awaitResponse { recv := r })).progress = s.decoded

theorem Decodes.answered {s : SendFile} {recv : RecvStream} (hdec : s.decoded = []) :
    ({ s with response := some recv }.answered recv).Decodes := by
  unfold SendFile.answered
  split
  · rename_i hread
    refine .inr ⟨recv, rfl, ?_, ?_⟩ <;> rw [awaitResponse, hread]
    · rfl
    · exact hdec.symm
  · rename_i hread
    refine .inr ⟨recv, rfl, ?_, ?_⟩ <;> rw [awaitResponse, hread]
    · rfl
    · exact hdec.symm
  · rename_i rest hread
    refine ⟨recv, rfl, ?_⟩
    rw [awaitResponse, hread, hdec]

theorem Decodes.readStatus {s : SendFile} {r recv : RecvStream} (hended : s.reader.phase ≠ .ended)
    (hr : s.response = some r)
    (heq : awaitResponse { recv := r } = downloaded ⟨recv, s.decoded, true⟩) :
    (s.readStatus recv).Decodes := by
  unfold SendFile.readStatus
  split
  · rename_i hread
    refine .inr ⟨r, hr, ?_, ?_⟩ <;> rw [heq, downloaded_of_error hread] <;> rfl
  · rename_i hread
    rw [if_neg hended]
    exact ⟨r, hr, heq.trans (downloaded_of_progress rfl hread)⟩
  · rename_i hread
    refine .inr ⟨r, hr, ?_, ?_⟩ <;> rw [heq, downloaded_of_completed hread] <;> rfl
  · rename_i hread
    refine .inr ⟨r, hr, ?_, ?_⟩ <;> rw [heq, downloaded_of_failed hread] <;> rfl

theorem Decodes.step {s s' : SendFile} {a : Action} (hfwd : s.Forwards) (h : s.Decodes)
    (hst : s.step a = some s') : s'.Decodes := by
  cases a with
  | fail e =>
    simp only [SendFile.step] at hst
    split at hst
    · rename_i hphase
      cases hst
      rw [Decodes, hphase] at h
      exact .inl h
    · cases hst
  | answer recv =>
    simp only [SendFile.step] at hst
    split at hst
    · rename_i hphase
      cases hst
      rw [Decodes, hphase] at h
      exact .answered h.2
    · cases hst
  | read =>
    simp only [SendFile.step] at hst
    split at hst
    · rename_i recv hphase
      cases hst
      rw [Decodes, hphase] at h
      obtain ⟨r, hr, heq⟩ := h
      -- the channel is open while `downloaded` runs, so that the task has not ended
      have hopen := hfwd.holds.open_of_ne (by rw [hphase]; nofun)
      have hended : s.reader.phase ≠ .ended := by
        intro hended
        rw [(hfwd.reader.ended hended).2] at hopen
        cases hopen
      exact .readStatus hended hr heq
    · cases hst
  | wake =>
    obtain ⟨reader, -, rfl⟩ := Option.map_eq_some_iff.mp hst
    exact h
  | emit =>
    simp only [SendFile.step] at hst
    split at hst
    · obtain ⟨reader, -, rfl⟩ := Option.map_eq_some_iff.mp hst
      exact h
    · cases hst

theorem reachable_decodes {total : UInt64} {s : SendFile} (hs : (machine total).Reachable s) :
    s.Decodes := by
  refine hs.invariant (I := Decodes) ?_ ?_
  · rintro s rfl
    exact ⟨rfl, rfl⟩
  · intro s a s' hr hdec _ hst
    exact hdec.step (reachable_forwards hr) hst

/-! ## Faithful forwarding -/

theorem reachable_total {total : UInt64} {s : SendFile} (hs : (machine total).Reachable s) :
    s.total = total := by
  refine hs.invariant (I := fun s => s.total = total) ?_ ?_
  · rintro s rfl
    rfl
  · intro s a s' hr htotal _ hst
    cases step_spec (reachable_forwards hr).holds hst <;> exact htotal

theorem Forwards.filterMap_taken {s : SendFile} (h : s.Forwards) :
    s.reader.taken.filterMap (Watch.Channel.valueAt s.decoded) =
      s.emitted.map TransferProgress.downloaded := by
  calc s.reader.taken.filterMap (Watch.Channel.valueAt s.decoded)
      = (s.reader.taken.map (Watch.Channel.valueAt s.decoded)).filterMap id := by
        rw [List.filterMap_map, Function.id_comp]
    _ = (s.emitted.map (fun e => some e.downloaded)).filterMap id := by rw [h.emitted]
    _ = s.emitted.map TransferProgress.downloaded := by
        rw [List.filterMap_map, Function.id_comp, ← List.filterMap_eq_map']

/-- A task that has seen the last version has emitted its value. -/
theorem Forwards.getLast_emitted {s : SendFile} (h : s.Forwards) (hphase : s.reader.phase ≠ .woken)
    (hseen : s.reader.seen = s.channel.version) :
    (s.emitted.map TransferProgress.downloaded).getLast? = s.decoded.getLast? := by
  have hlast := congrArg List.getLast? h.emitted
  rcases Nat.eq_zero_or_pos s.channel.version with hzero | hpos
  · have hnone : s.decoded = [] := List.length_eq_zero_iff.mp (h.history.version ▸ hzero)
    have htaken : s.reader.taken = [] := by
      refine List.eq_nil_iff_forall_not_mem.mpr fun n hn => ?_
      have hmem := h.reader.mem_taken hn
      omega
    rw [← h.filterMap_taken, htaken, hnone, List.filterMap_nil]
  · rw [List.getLast?_map, List.getLast?_map, h.reader.getLast_taken hphase hseen hpos,
      Option.map_some, h.history.valueAt hpos] at hlast
    obtain ⟨e, he, hvalue⟩ := Option.map_eq_some_iff.mp hlast
    rw [List.getLast?_map, he, Option.map_some, Option.some.inj hvalue,
      ← h.history.valueAt hpos, Watch.Channel.valueAt, h.history.version,
      ← List.getLast?_eq_getElem?]

/-- A task that cannot go on after `run_sender` has returned has ended. -/
theorem Forwards.ended_of_stuck {s : SendFile} (h : s.Forwards) {result : Except String SendOutcome}
    (hret : s.phase = .returned result) (hwake : s.step .wake = none)
    (hemit : s.step .emit = none) : s.reader.phase = .ended := by
  have hclosed := h.holds.mpr ⟨result, hret⟩
  rcases s.reader.moves_of_closed hclosed with hw | ht | hr | hended
  · rw [Option.map_eq_none_iff.mp hwake] at hw
    cases hw
  · obtain ⟨⟨downloaded, taking⟩, htake⟩ := Option.isSome_iff_exists.mp ht
    simp only [SendFile.step, htake] at hemit
    obtain ⟨-, -, rfl⟩ := Watch.Reader.take_spec htake
    cases hemit
  · obtain ⟨reader, hresume⟩ := Option.isSome_iff_exists.mp hr
    exact absurd (Watch.Reader.resume_spec hresume).1 h.idle
  · exact hended

/-- **Send progress is forwarded faithfully.**  However the steps interleave and however
`run_sender` ends: the values emitted are those of increasing versions of the channel,
none of them the initial one, hence a subsequence of the values decoded, each with the
total of its send; the task ends only after `run_sender` has returned and the last value
decoded has been emitted, and it does end once nothing is left for it to do. -/
theorem progress_forwarded {total : UInt64} {s : SendFile} (hs : (machine total).Reachable s) :
    (∃ versions : List Nat, versions.Pairwise (· < ·) ∧ (∀ n ∈ versions, 0 < n) ∧
      s.emitted.map (fun e => some e.downloaded) =
        versions.map (Watch.Channel.valueAt s.decoded)) ∧
    (s.emitted.map TransferProgress.downloaded).Sublist s.decoded ∧
    (∀ e ∈ s.emitted, e.total = total) ∧
    (s.reader.phase = .ended → (∃ result, s.phase = .returned result) ∧
      (s.emitted.map TransferProgress.downloaded).getLast? = s.decoded.getLast?) ∧
    ((∃ result, s.phase = .returned result) → s.step .wake = none → s.step .emit = none →
      s.reader.phase = .ended) := by
  have hfwd := reachable_forwards hs
  have hincr := (List.pairwise_cons.mp hfwd.reader.increasing).2
  refine ⟨⟨s.reader.taken, hincr, fun n hn => (hfwd.reader.mem_taken hn).1, hfwd.emitted⟩,
    ?_, ?_, ?_, ?_⟩
  · rw [← hfwd.filterMap_taken]
    refine Watch.Channel.valueAt_sublist hincr fun n hn => ?_
    obtain ⟨hpos, hle⟩ := hfwd.reader.mem_taken hn
    exact ⟨hpos, hfwd.history.version ▸ hle⟩
  · intro e he
    rw [hfwd.total e he, reachable_total hs]
  · intro hended
    obtain ⟨hseen, hclosed⟩ := hfwd.reader.ended hended
    exact ⟨hfwd.holds.mp hclosed, hfwd.getLast_emitted (by rw [hended]; nofun) hseen⟩
  · rintro ⟨result, hret⟩ hwake hemit
    exact hfwd.ended_of_stuck hret hwake hemit

/-- Three values and the end: the second comes between the wake and the borrow, and the
sender is gone before the task looks for the third. -/
def overtakenRun : List Action :=
  [.answer ⟨1 :: DownloadStatus.progressFrames [1, 2, 3] ++ [3], true⟩,
    .read, .wake, .read, .emit, .read, .read, .wake, .emit, .wake]

theorem progress_forwarded_overtaken :
    ∃ s, (machine 3).exec { total := 3 } overtakenRun = some s ∧ s.decoded = [1, 2, 3] ∧
      s.emitted = [⟨2, 3⟩, ⟨3, 3⟩] ∧
      (s.emitted.map TransferProgress.downloaded).getLast? = s.decoded.getLast? := by
  have hstart : (machine 3).Reachable { total := 3 } := .init rfl
  have hs := hstart.exec (rfl : (machine 3).exec { total := 3 } overtakenRun = some _)
  exact ⟨_, rfl, rfl, rfl, ((progress_forwarded hs).2.2.2.1 rfl).2⟩

end SendFile
end IrohShare
