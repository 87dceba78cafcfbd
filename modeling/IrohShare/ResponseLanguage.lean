import IrohShare.Sender

/-!
# The response language

What a sender makes of any bytes that a receiver may answer with: a decision byte, and
after an accept the frames of download statuses.  The progress frames that directly
follow the accept byte are taken as far as they go; what comes after them decides.
-/
namespace IrohShare
open ByteStream

namespace DownloadStatus

/-- No whole progress frame at the front. -/
def Maximal (rest : List UInt8) : Prop :=
  ∀ v more, rest ≠ (progress v).frame ++ more

/-- What begins with the tag of a progress frame, and is not one, is cut short. -/
theorem Maximal.length_lt {payload : List UInt8} (h : Maximal (2 :: payload)) :
    payload.length < 8 := by
  by_contra hlong
  have hlen : (payload.take 8).length = 8 := List.length_take_of_le (by omega)
  have hlt := ofBytesBE_lt (payload.take 8)
  have hback := toBytesBE_ofBytesBE (payload.take 8)
  rw [hlen] at hlt hback
  have hn : (UInt64.ofNat (ofBytesBE (payload.take 8))).toNat = ofBytesBE (payload.take 8) :=
    UInt64.toNat_ofNat_of_lt hlt
  refine h (UInt64.ofNat (ofBytesBE (payload.take 8))) (payload.drop 8) ?_
  rw [frame, hn, hback, List.cons_append, List.take_append_drop]

theorem maximal_of_head {rest : List UInt8} (h : rest.head? ≠ some 2) : Maximal rest := by
  rintro v more rfl
  exact h rfl

/-- Any bytes are progress frames, and then something that is not one. -/
theorem exists_maximal (bytes : List UInt8) :
    ∃ values rest, bytes = progressFrames values ++ rest ∧ Maximal rest := by
  induction hn : bytes.length using Nat.strongRecOn generalizing bytes with
  | ind n ih =>
    by_cases hmax : Maximal bytes
    · exact ⟨[], bytes, rfl, hmax⟩
    · simp only [Maximal, not_forall, ne_eq, not_not] at hmax
      obtain ⟨v, more, hframe⟩ := hmax
      have hshort : more.length < n := by
        rw [← hn, hframe, List.length_append]
        simp only [frame, List.length_cons, length_toBytesBE]
        omega
      obtain ⟨values, rest, hmore, hrest⟩ := ih _ hshort more rfl
      exact ⟨v :: values, rest, by rw [hframe, hmore, progressFrames_cons, List.append_assoc],
        hrest⟩

/-! ## Whole responses -/

/-- Progress values and a terminal status, as they are written. -/
def response (values : List UInt64) (status : DownloadStatus) : List UInt8 :=
  progressFrames values ++ status.frame

/-- Write progress values, then a status. -/
def writeResponse (values : List UInt64) (status : DownloadStatus) :
    EStateM String SendStream Unit := do
  forM values fun v => (progress v).writeTo
  status.writeTo

/-- A stream that takes everything takes a status as its frame. -/
theorem writeTo_open (status : DownloadStatus) (sent : List UInt8) :
    status.writeTo.run ⟨sent, none, false, false⟩ =
      .ok () ⟨sent ++ status.frame, none, false, false⟩ := by
  cases status with
  | progress downloaded =>
    rw [writeTo, EStateM.run_bind, SendStream.writeU8, SendStream.writeAll_open]
    simp only [SendStream.writeU64, SendStream.writeAll_open, frame, List.append_assoc,
      List.singleton_append]
  | completed => rfl
  | failed => rfl

theorem forM_progress_open (values : List UInt64) (sent : List UInt8) :
    (forM values fun v => (progress v).writeTo).run ⟨sent, none, false, false⟩ =
      .ok () ⟨sent ++ progressFrames values, none, false, false⟩ := by
  induction values generalizing sent with
  | nil =>
    rw [progressFrames_nil, List.append_nil]
    rfl
  | cons v values ih =>
    rw [List.forM_cons, EStateM.run_bind, writeTo_open]
    simp only [ih, progressFrames_cons, List.append_assoc]

theorem writeResponse_open (values : List UInt64) (status : DownloadStatus) :
    (writeResponse values status).run {} = .ok () { sent := response values status } := by
  rw [writeResponse, EStateM.run_bind, forM_progress_open]
  simp only [writeTo_open, List.nil_append]
  rfl

/-- The statuses that end a response. -/
def IsTerminal : DownloadStatus → Prop
  | progress _ => False
  | completed | failed => True

/-- The value of a frame can be read off it. -/
theorem frame_progress_inj {v v' : UInt64} {rest rest' : List UInt8}
    (h : (progress v).frame ++ rest = (progress v').frame ++ rest') : v = v' ∧ rest = rest' := by
  have hread := readFrom_frame (progress v) rest true
  rw [h, readFrom_frame] at hread
  cases hread
  exact ⟨rfl, rfl⟩

/-- **Responses are prefix-free**: one that begins another is that other. -/
theorem response_prefix {values values' : List UInt64} {status status' : DownloadStatus}
    (ht : IsTerminal status) (ht' : IsTerminal status')
    (h : response values status <+: response values' status') :
    values = values' ∧ status = status' := by
  obtain ⟨rest, h⟩ := h
  simp only [response, List.append_assoc] at h
  induction values generalizing values' with
  | nil =>
    cases values' with
    | nil => cases status <;> cases status' <;> simp_all [frame, IsTerminal]
    | cons v' values' => cases status <;> simp_all [frame, IsTerminal]
  | cons v values ih =>
    cases values' with
    | nil => cases status' <;> simp_all [frame, IsTerminal]
    | cons v' values' =>
      simp only [progressFrames_cons, List.append_assoc] at h
      obtain ⟨rfl, hrest⟩ := frame_progress_inj h
      obtain ⟨rfl, hstatus⟩ := ih hrest
      exact ⟨rfl, hstatus⟩

end DownloadStatus

open DownloadStatus

/-! ## What the sender makes of an answer -/

/-- After the progress frames, the next byte decides, and nothing more is pushed. -/
theorem downloaded_of_maximal {rest : List UInt8} (h : Maximal rest) (fin : Bool)
    (progress : List UInt64) :
    (∃ more, rest = 3 :: more ∧
      downloaded ⟨⟨rest, fin⟩, progress, true⟩ = .ok .completed ⟨⟨more, fin⟩, progress, true⟩) ∨
    (rest.head? ≠ some 3 ∧
      ∃ e recv, downloaded ⟨⟨rest, fin⟩, progress, true⟩ = .error e ⟨recv, progress, true⟩) := by
  cases rest with
  | nil => exact .inr ⟨nofun, _, _, downloaded_of_error rfl⟩
  | cons b more =>
    by_cases h2 : b = 2
    · subst h2
      obtain ⟨e, r, hread⟩ := readFrom_partial (.inr ⟨more, rfl, h.length_lt⟩) fin
      exact .inr ⟨by simp, e, r, downloaded_of_error hread⟩
    by_cases h3 : b = 3
    · subst h3
      exact .inl ⟨more, rfl, downloaded_of_completed (readFrom_frame .completed more fin)⟩
    by_cases h4 : b = 4
    · subst h4
      exact .inr ⟨by simp, _, _, downloaded_of_failed (readFrom_frame .failed more fin)⟩
    · have hread : readFrom.run ⟨b :: more, fin⟩ =
          .error s!"invalid download status: {b}" ⟨more, fin⟩ := by
        rw [readFrom, EStateM.run_bind, RecvStream.readU8_cons]
        simp only [if_neg h2, if_neg h3, if_neg h4]
        rfl
      exact .inr ⟨by simpa using h3, _, _, downloaded_of_error hread⟩

/-- What the sender makes of an answer. -/
abbrev answer (bytes : List UInt8) (fin : Bool) : EStateM.Result String Sending SendOutcome :=
  awaitResponse { recv := ⟨bytes, fin⟩ }

theorem answer_declined (rest : List UInt8) (fin : Bool) :
    answer (0 :: rest) fin = .ok .declined { recv := ⟨rest, fin⟩ } := rfl

theorem answer_accepted (rest : List UInt8) (fin : Bool) :
    answer (1 :: rest) fin = downloaded { recv := ⟨rest, fin⟩ } := rfl

/-- No decision byte, or one that says nothing. -/
theorem answer_of_other {bytes : List UInt8} (h0 : bytes.head? ≠ some 0)
    (h1 : bytes.head? ≠ some 1) (fin : Bool) :
    ∃ e recv, answer bytes fin = .error e { recv } := by
  cases bytes with
  | nil => exact ⟨_, _, rfl⟩
  | cons b rest =>
    have hb0 : b ≠ 0 := by simpa using h0
    have hb1 : b ≠ 1 := by simpa using h1
    have htry : (DecisionStatus.tryFrom b : EStateM String RecvStream DecisionStatus) =
        throw "invalid transfer status" := by
      rw [DecisionStatus.tryFrom, if_neg hb0, if_neg hb1]
    have hread : transferDecision.run ⟨b :: rest, fin⟩ =
        .error "invalid transfer status" ⟨rest, fin⟩ := by
      rw [transferDecision, EStateM.run_bind]
      simp only [context, EStateM.run, RecvStream.readU8, htry]
      rfl
    exact ⟨_, _, by rw [answer, awaitResponse, hread]⟩

/-- The answer is an accept, progress frames, a completion, and anything. -/
def Completes (bytes : List UInt8) : Prop :=
  ∃ values rest, bytes = 1 :: (progressFrames values ++ 3 :: rest)

/-- The progress frames of an accept are pushed, and the byte after them decides. -/
theorem answer_of_maximal (values : List UInt64) {rest : List UInt8} (h : Maximal rest)
    (fin : Bool) :
    (final (answer (1 :: (progressFrames values ++ rest)) fin)).progress = values ∧
      ((rest.head? = some 3 ∧
          outcome (answer (1 :: (progressFrames values ++ rest)) fin) = .ok .completed) ∨
        (rest.head? ≠ some 3 ∧
          ∃ e, outcome (answer (1 :: (progressFrames values ++ rest)) fin) = .error e)) := by
  rw [answer_accepted, downloaded_progressFrames, List.nil_append]
  rcases downloaded_of_maximal h fin values with ⟨more, rfl, hrun⟩ | ⟨hne, e, recv, hrun⟩
  · rw [hrun]
    exact ⟨rfl, .inl ⟨rfl, rfl⟩⟩
  · rw [hrun]
    exact ⟨rfl, .inr ⟨hne, e, rfl⟩⟩

theorem maximal_three (rest : List UInt8) : Maximal (3 :: rest) := maximal_of_head (by simp)

/-- Every answer declines, accepts, or says nothing. -/
theorem answer_cases (bytes : List UInt8) (fin : Bool) :
    (bytes.head? = some 0 ∧ outcome (answer bytes fin) = .ok .declined ∧
      (final (answer bytes fin)).progress = []) ∨
    (∃ values rest, bytes = 1 :: (progressFrames values ++ rest) ∧ Maximal rest) ∨
    (bytes.head? ≠ some 0 ∧ bytes.head? ≠ some 1 ∧
      (∃ e, outcome (answer bytes fin) = .error e) ∧
      (final (answer bytes fin)).progress = []) := by
  by_cases h0 : bytes.head? = some 0
  · obtain ⟨rest, rfl⟩ := List.head?_eq_some_iff.mp h0
    exact .inl ⟨h0, by rw [answer_declined]; exact ⟨rfl, rfl⟩⟩
  by_cases h1 : bytes.head? = some 1
  · obtain ⟨tail, rfl⟩ := List.head?_eq_some_iff.mp h1
    obtain ⟨values, rest, htail, hrest⟩ := exists_maximal tail
    exact .inr (.inl ⟨values, rest, by rw [htail], hrest⟩)
  · obtain ⟨e, recv, hrun⟩ := answer_of_other h0 h1 fin
    exact .inr (.inr ⟨h0, h1, by rw [hrun]; exact ⟨⟨e, rfl⟩, rfl⟩⟩)

theorem answer_declined_iff (bytes : List UInt8) (fin : Bool) :
    outcome (answer bytes fin) = .ok .declined ↔ bytes.head? = some 0 := by
  rcases answer_cases bytes fin with ⟨h0, hdeclined, -⟩ | ⟨values, rest, rfl, hrest⟩ |
    ⟨h0, -, ⟨e, he⟩, -⟩
  · exact iff_of_true hdeclined h0
  · refine iff_of_false ?_ (by simp)
    rcases (answer_of_maximal values hrest fin).2 with ⟨-, hrun⟩ | ⟨-, e, hrun⟩ <;>
      rw [hrun] <;> nofun
  · exact iff_of_false (by rw [he]; nofun) h0

theorem answer_completed_iff (bytes : List UInt8) (fin : Bool) :
    outcome (answer bytes fin) = .ok .completed ↔ Completes bytes := by
  constructor
  · intro hcompleted
    rcases answer_cases bytes fin with ⟨-, hdeclined, -⟩ | ⟨values, rest, rfl, hrest⟩ |
      ⟨-, -, ⟨e, he⟩, -⟩
    · rw [hdeclined] at hcompleted
      cases hcompleted
    · rcases (answer_of_maximal values hrest fin).2 with ⟨h3, -⟩ | ⟨-, e, hrun⟩
      · obtain ⟨more, rfl⟩ := List.head?_eq_some_iff.mp h3
        exact ⟨values, more, rfl⟩
      · rw [hrun] at hcompleted
        cases hcompleted
    · rw [he] at hcompleted
      cases hcompleted
  · rintro ⟨values, rest, rfl⟩
    rcases (answer_of_maximal values (maximal_three rest) fin).2 with ⟨-, hrun⟩ | ⟨hne, -⟩
    · exact hrun
    · exact absurd rfl hne

/-- **The sender accepts exactly the response language.**  For all bytes that a receiver
may answer with, also when the connection is lost after them: a decline is a first byte
`0`; a completion is the accept byte, progress frames, the byte `3` and anything; all else
is an error.  Pushed are the values of the progress frames that directly follow an accept
byte, as far as they go, and nothing else.  Written responses are prefix-free, hence
written injectively. -/
theorem response_language :
    (∀ bytes fin, outcome (answer bytes fin) = .ok .declined ↔ bytes.head? = some 0) ∧
    (∀ bytes fin, outcome (answer bytes fin) = .ok .completed ↔ Completes bytes) ∧
    (∀ bytes fin, bytes.head? ≠ some 0 → ¬ Completes bytes →
      ∃ e, outcome (answer bytes fin) = .error e) ∧
    (∀ tail, ∃ values rest, tail = progressFrames values ++ rest ∧ Maximal rest) ∧
    (∀ values rest fin, Maximal rest →
      (final (answer (1 :: (progressFrames values ++ rest)) fin)).progress = values) ∧
    (∀ bytes fin, bytes.head? ≠ some 1 → (final (answer bytes fin)).progress = []) ∧
    (∀ values status,
      (writeResponse values status).run {} = .ok () { sent := response values status }) ∧
    (∀ values values' status status', IsTerminal status → IsTerminal status' →
      response values status <+: response values' status' →
      values = values' ∧ status = status') := by
  refine ⟨answer_declined_iff, answer_completed_iff, ?_, exists_maximal, ?_, ?_,
    writeResponse_open, ?_⟩
  · intro bytes fin h0 hcompletes
    cases hrun : outcome (answer bytes fin) with
    | error e => exact ⟨e, rfl⟩
    | ok o =>
      cases o with
      | declined => exact absurd ((answer_declined_iff bytes fin).mp hrun) h0
      | completed => exact absurd ((answer_completed_iff bytes fin).mp hrun) hcompletes
  · intro values rest fin hrest
    exact (answer_of_maximal values hrest fin).1
  · intro bytes fin h1
    rcases answer_cases bytes fin with ⟨-, -, hnone⟩ | ⟨values, rest, rfl, -⟩ | ⟨-, -, -, hnone⟩
    · exact hnone
    · exact absurd rfl h1
    · exact hnone
  · intro values values' status status' ht ht' hpre
    exact response_prefix ht ht' hpre

/-- Two values, a completion, and bytes after it that are not read. -/
theorem response_language_sample :
    outcome (answer (1 :: (progressFrames [1, 2] ++ [3, 2, 0])) false) = .ok .completed ∧
      (final (answer (1 :: (progressFrames [1, 2] ++ [3, 2, 0])) false)).progress = [1, 2] :=
  ⟨(response_language.2.1 _ _).mpr ⟨[1, 2], [2, 0], rfl⟩,
    response_language.2.2.2.2.1 [1, 2] [3, 2, 0] false (maximal_three [2, 0])⟩

end IrohShare
