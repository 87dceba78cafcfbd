import Mathlib.Data.List.Basic

/-!
# A line read from an input that comes in chunks

A reader asks for input until it has a line.  Each answer is a chunk of bytes: the
empty chunk is the end of the input, and a chunk may hold the end of the line and
more behind it.  A reader that is thrown away with its buffer after each line, as one
made for a single line is, loses what was behind.

`feed` takes one chunk, `feeds` a list of them, and `feeds_done` says what a
completed line is in terms of the bytes that came in.
-/
namespace LineInput

/-- The byte that ends a line. -/
def newline : UInt8 := 10

/-- The bytes to the first newline, that included, and the bytes behind it. -/
def splitLine : List UInt8 → Option (List UInt8 × List UInt8)
  | [] => none
  | b :: bs =>
    if b = newline then some ([b], bs)
    else (splitLine bs).map (fun (line, behind) => (b :: line, behind))

/-- A reader: it wants more, or has its line and loses what was behind it. -/
inductive Reader
  | more (line : List UInt8)
  | done (line lost : List UInt8)
  deriving DecidableEq, Repr

/-- The reader that has `line` and gets a chunk. -/
def feed (line chunk : List UInt8) : Reader :=
  match chunk with
  | [] => .done line []
  | chunk =>
    match splitLine chunk with
    | some (rest, behind) => .done (line ++ rest) behind
    | none => .more (line ++ chunk)

/-- The reader that has `line` and gets some chunks, unless it is done before the last. -/
def feeds (line : List UInt8) : List (List UInt8) → Option Reader
  | [] => some (.more line)
  | chunk :: chunks =>
    match feed line chunk with
    | .more line => feeds line chunks
    | .done line lost => if chunks = [] then some (.done line lost) else none

/-- A chunk as a terminal gives it: no newline but at its end. -/
def OneLine (chunk : List UInt8) : Prop := newline ∉ chunk.dropLast

instance (chunk : List UInt8) : Decidable (OneLine chunk) :=
  inferInstanceAs (Decidable (newline ∉ chunk.dropLast))

theorem splitLine_eq_none {bs : List UInt8} : splitLine bs = none ↔ newline ∉ bs := by
  induction bs with
  | nil => simp [splitLine]
  | cons b bs ih =>
    by_cases hb : b = newline
    · simp [splitLine, hb]
    · simp [splitLine, hb, ih, Ne.symm hb]

theorem splitLine_eq_some {bs line behind : List UInt8} (h : splitLine bs = some (line, behind)) :
    bs = line ++ behind ∧ ∃ body, line = body ++ [newline] ∧ newline ∉ body := by
  induction bs generalizing line with
  | nil => simp [splitLine] at h
  | cons b bs ih =>
    by_cases hb : b = newline
    · simp only [splitLine, if_pos hb, Option.some.injEq, Prod.mk.injEq] at h
      obtain ⟨rfl, rfl⟩ := h
      exact ⟨rfl, [], by simp [hb], by simp⟩
    · simp only [splitLine, if_neg hb, Option.map_eq_some_iff] at h
      obtain ⟨⟨line', behind'⟩, hsplit, heq⟩ := h
      simp only [Prod.mk.injEq] at heq
      obtain ⟨rfl, rfl⟩ := heq
      obtain ⟨rfl, body, rfl, hbody⟩ := ih hsplit
      exact ⟨rfl, b :: body, rfl, by simp [Ne.symm hb, hbody]⟩

theorem feed_more {line chunk line' : List UInt8} (h : feed line chunk = .more line') :
    chunk ≠ [] ∧ line' = line ++ chunk ∧ newline ∉ chunk := by
  unfold feed at h
  split at h
  · cases h
  · rename_i hne
    split at h
    · cases h
    · rename_i hsplit
      cases h
      exact ⟨hne, rfl, splitLine_eq_none.mp hsplit⟩

theorem feed_done {line chunk line' lost : List UInt8} (h : feed line chunk = .done line' lost) :
    line ++ chunk = line' ++ lost ∧
      (chunk = [] ∧ line' = line ∨
        ∃ body, line' = line ++ body ++ [newline] ∧ newline ∉ body) := by
  unfold feed at h
  split at h
  · cases h
    exact ⟨rfl, .inl ⟨rfl, rfl⟩⟩
  · split at h
    · rename_i hsplit
      cases h
      obtain ⟨rfl, body, rfl, hbody⟩ := splitLine_eq_some hsplit
      exact ⟨by simp, .inr ⟨body, by simp, hbody⟩⟩
    · cases h

/-- A chunk that is a line loses nothing. -/
theorem OneLine.feed_done {line chunk line' lost : List UInt8} (hone : OneLine chunk)
    (h : feed line chunk = .done line' lost) : lost = [] := by
  obtain ⟨heq, ⟨rfl, rfl⟩ | ⟨body, rfl, -⟩⟩ := LineInput.feed_done h
  · simpa using heq
  · have hchunk : chunk = body ++ newline :: lost := by simpa using heq
    cases lost with
    | nil => rfl
    | cons b rest =>
      refine absurd ?_ hone
      rw [hchunk, List.dropLast_append_of_ne_nil (by simp)]
      simp

/-- The reader after one chunk more. -/
theorem feeds_concat {line line' : List UInt8} {chunks : List (List UInt8)}
    (h : feeds line chunks = some (.more line')) (chunk : List UInt8) :
    feeds line (chunks ++ [chunk]) = some (feed line' chunk) := by
  induction chunks generalizing line with
  | nil =>
    cases h
    simp only [List.nil_append, feeds]
    split <;> simp [*]
  | cons c chunks ih =>
    simp only [List.cons_append, feeds] at h ⊢
    split at h
    · exact ih h
    · split at h <;> simp at h

theorem feeds_more {line line' : List UInt8} {chunks : List (List UInt8)}
    (h : feeds line chunks = some (.more line')) :
    line' = line ++ chunks.flatten ∧ newline ∉ chunks.flatten ∧ [] ∉ chunks := by
  induction chunks generalizing line with
  | nil =>
    cases h
    simp
  | cons c chunks ih =>
    simp only [feeds] at h
    split at h
    · rename_i hfeed
      obtain ⟨hne, rfl, hc⟩ := feed_more hfeed
      obtain ⟨rfl, hflat, hnil⟩ := ih h
      exact ⟨by simp, by simp [hc] at hflat ⊢; exact hflat, by simp [hnil, Ne.symm hne]⟩
    · split at h <;> simp at h

/-- **A completed line.**  What came in is the line and what is lost.  The line ends
with its only newline, or the input ended and nothing is lost.  Only the last chunk
can lose anything, and does not if it is a line itself. -/
theorem feeds_done {line lost : List UInt8} {chunks : List (List UInt8)}
    (h : feeds [] chunks = some (.done line lost)) :
    chunks.flatten = line ++ lost ∧
    (newline ∉ line ∧ lost = [] ∧ chunks.getLast? = some [] ∨
      ∃ body, line = body ++ [newline] ∧ newline ∉ body) ∧
    (∃ last, chunks.getLast? = some last ∧ lost <:+ last) ∧
    ((∀ chunk ∈ chunks, OneLine chunk) → lost = []) := by
  obtain ⟨front, last, rfl⟩ : ∃ front last, chunks = front ++ [last] := by
    rcases chunks.eq_nil_or_concat with rfl | ⟨front, last, rfl⟩
    · simp [feeds] at h
    · exact ⟨front, last, by simp⟩
  -- all but the last chunk left the reader wanting more
  have hfront : ∀ {line₀ : List UInt8} {front : List (List UInt8)},
      feeds line₀ (front ++ [last]) = some (.done line lost) →
      ∃ line₁, feeds line₀ front = some (.more line₁) := by
    intro line₀ front
    induction front generalizing line₀ with
    | nil => exact fun _ => ⟨line₀, rfl⟩
    | cons c front ih =>
      intro h
      simp only [List.cons_append, feeds] at h ⊢
      split at h
      · exact ih h
      · simp at h
  obtain ⟨line₁, hmore⟩ := hfront h
  rw [feeds_concat hmore, Option.some.injEq] at h
  obtain ⟨rfl, hflat, -⟩ := feeds_more hmore
  obtain ⟨heq, hcases⟩ := feed_done h
  rw [List.nil_append] at heq hcases
  refine ⟨by simpa using heq, ?_, ⟨last, by simp, ?_⟩, fun hone => ?_⟩
  · rcases hcases with ⟨rfl, rfl⟩ | ⟨body, rfl, hbody⟩
    · exact .inl ⟨hflat, by simpa using heq, by simp⟩
    · exact .inr ⟨_, rfl, by simp [hbody] at hflat ⊢; exact hflat⟩
  · rcases hcases with ⟨rfl, rfl⟩ | ⟨body, rfl, hbody⟩
    · simp [show lost = [] by simpa using heq]
    · exact ⟨body ++ [newline], by simpa using heq.symm⟩
  · exact (hone last (by simp)).feed_done h

end LineInput
