import Mathlib.Algebra.Group.Nat.Defs
import Mathlib.Data.List.Basic
import Mathlib.Data.List.Induction

/-!
# Byte streams

The two ends of a one-way byte stream, as the code that writes and reads one sees
them.  A `SendStream` records the bytes accepted so far and how many more the
connection will take: the write that asks for more fails after using up that room,
so it may fail between any two bytes, and every write after it fails at once.  A
`RecvStream` is what has arrived and not been read; `finished` says that the peer
ended the stream rather than the connection breaking off.

Operations are `EStateM String`: they keep the changes they made before failing.
-/
namespace ByteStream

/-! ## Big-endian integers -/

/-- `n` in `width` bytes, most significant first, higher digits dropped. -/
def toBytesBE : Nat → Nat → List UInt8
  | 0, _ => []
  | width + 1, n => toBytesBE width (n / 256) ++ [UInt8.ofNat n]

/-- The number whose big-endian bytes are `bs`. -/
def ofBytesBE (bs : List UInt8) : Nat :=
  bs.foldl (fun acc b => acc * 256 + b.toNat) 0

@[simp] theorem length_toBytesBE (width n : Nat) : (toBytesBE width n).length = width := by
  induction width generalizing n with
  | zero => rfl
  | succ width ih => simp [toBytesBE, ih]

theorem ofBytesBE_concat (bs : List UInt8) (b : UInt8) :
    ofBytesBE (bs ++ [b]) = ofBytesBE bs * 256 + b.toNat := by
  simp [ofBytesBE]

/-- Decoding inverts encoding for numbers that fit the width. -/
theorem ofBytesBE_toBytesBE {width n : Nat} (h : n < 256 ^ width) :
    ofBytesBE (toBytesBE width n) = n := by
  induction width generalizing n with
  | zero =>
    have hn : n = 0 := by simpa using h
    rw [hn]
    rfl
  | succ width ih =>
    have hdiv : n / 256 < 256 ^ width := by
      rw [Nat.div_lt_iff_lt_mul (by decide)]
      rwa [Nat.pow_succ] at h
    rw [toBytesBE, ofBytesBE_concat, ih hdiv, UInt8.toNat_ofNat']
    omega

theorem ofBytesBE_lt (bs : List UInt8) : ofBytesBE bs < 256 ^ bs.length := by
  induction bs using List.reverseRecOn with
  | nil => exact Nat.one_pos
  | append_singleton bs b ih =>
    have hb : b.toNat < 256 := b.toNat_lt
    rw [ofBytesBE_concat, List.length_append, List.length_singleton, Nat.pow_succ]
    omega

/-- Encoding inverts decoding at the width of the bytes. -/
theorem toBytesBE_ofBytesBE (bs : List UInt8) : toBytesBE bs.length (ofBytesBE bs) = bs := by
  induction bs using List.reverseRecOn with
  | nil => rfl
  | append_singleton bs b ih =>
    have hb : b.toNat < 256 := b.toNat_lt
    have hdiv : (ofBytesBE bs * 256 + b.toNat) / 256 = ofBytesBE bs := by omega
    have hmod : UInt8.ofNat (ofBytesBE bs * 256 + b.toNat) = b := by
      apply UInt8.toNat_inj.mp
      rw [UInt8.toNat_ofNat']
      omega
    rw [ofBytesBE_concat, List.length_append, List.length_singleton, toBytesBE, hdiv, hmod, ih]

/-! ## Text -/

/-- The UTF-8 bytes of a string. -/
def utf8Bytes (s : String) : List UInt8 := s.toByteArray.data.toList

/-- The string whose UTF-8 bytes are `bs`, if they are valid UTF-8. -/
def utf8Decode (bs : List UInt8) : Option String := String.fromUTF8? ⟨bs.toArray⟩

@[simp] theorem utf8Decode_utf8Bytes (s : String) : utf8Decode (utf8Bytes s) = some s := by
  simp [utf8Decode, utf8Bytes, String.fromUTF8?, s.isValidUTF8, String.fromUTF8]

/-- What is decoded is what the bytes encode. -/
theorem utf8Bytes_of_utf8Decode {bs : List UInt8} {s : String} (h : utf8Decode bs = some s) :
    utf8Bytes s = bs := by
  unfold utf8Decode String.fromUTF8? at h
  split at h
  · cases h
    simp [utf8Bytes, String.fromUTF8]
  · cases h

theorem utf8Bytes_injective {s t : String} (h : utf8Bytes s = utf8Bytes t) : s = t := by
  have hdecode := congrArg utf8Decode h
  rw [utf8Decode_utf8Bytes, utf8Decode_utf8Bytes] at hdecode
  exact Option.some.inj hdecode

/-- A text whose bytes begin those of another begins it. -/
theorem isPrefix_of_utf8Bytes_append {s t : String} {rest : List UInt8}
    (h : utf8Bytes s ++ rest = utf8Bytes t) : s.toList <+: t.toList := by
  refine List.isPrefix_of_utf8Encode_append_eq_utf8Encode ⟨rest.toArray⟩ ?_
  rw [String.utf8Encode_toList, String.utf8Encode_toList]
  apply ByteArray.ext
  apply Array.toList_inj.mp
  rw [ByteArray.data_append, Array.toList_append]
  exact h

/-! ## Failing with a message, and state embedding -/

/-- The value of an option, or a failure with the message. -/
def orThrow {σ α : Type} (msg : String) : Option α → EStateM String σ α
  | some a => pure a
  | none => throw msg

/-- Continue only if the condition holds. -/
def ensure {σ : Type} (cond : Bool) (msg : String) : EStateM String σ Unit :=
  if cond then pure () else throw msg

/-- Replace the message of a failure. -/
def context {σ α : Type} (msg : String) (x : EStateM String σ α) : EStateM String σ α := fun s =>
  match x.run s with
  | .ok a s' => .ok a s'
  | .error _ s' => .error msg s'

/-- What a successful sequence did: its first operation succeeded, and the second
from where it ended. -/
theorem bind_ok {ε σ α β : Type} {x : EStateM ε σ α} {f : α → EStateM ε σ β} {s s' : σ} {b : β}
    (h : (x >>= f).run s = .ok b s') :
    ∃ a t, x.run s = .ok a t ∧ (f a).run t = .ok b s' := by
  rw [EStateM.run_bind] at h
  cases hx : x.run s with
  | ok a t => exact ⟨a, t, rfl, by simpa [hx] using h⟩
  | error e t => simp [hx] at h

/-- A sequence that failed: its first operation did, or the second from where that ended. -/
theorem bind_error {ε σ α β : Type} {x : EStateM ε σ α} {f : α → EStateM ε σ β} {s s' : σ} {e : ε}
    (h : (x >>= f).run s = .error e s') :
    x.run s = .error e s' ∨ ∃ a t, x.run s = .ok a t ∧ (f a).run t = .error e s' := by
  rw [EStateM.run_bind] at h
  cases hx : x.run s with
  | ok a t => exact .inr ⟨a, t, rfl, by simpa [hx] using h⟩
  | error e' t => exact .inl (by simpa [hx] using h)

theorem context_ok {σ α : Type} {msg : String} {x : EStateM String σ α} {s s' : σ} {a : α}
    (h : (context msg x).run s = .ok a s') : x.run s = .ok a s' := by
  simp only [EStateM.run, context] at h ⊢
  split at h <;> simp_all

theorem orThrow_ok {σ α : Type} {msg : String} {o : Option α} {s s' : σ} {a : α}
    (h : (orThrow msg o).run s = .ok a s') : o = some a ∧ s' = s := by
  cases o with
  | some b =>
    cases h
    exact ⟨rfl, rfl⟩
  | none => cases h

@[simp] theorem orThrow_some {σ α : Type} (msg : String) (a : α) (s : σ) :
    (orThrow msg (some a) : EStateM String σ α).run s = .ok a s := rfl

theorem ensure_true {σ : Type} {cond : Bool} (h : cond = true) (msg : String) (s : σ) :
    (ensure cond msg : EStateM String σ Unit).run s = .ok () s := by
  rw [h]
  rfl

theorem ensure_false {σ : Type} (msg : String) (s : σ) :
    (ensure false msg : EStateM String σ Unit).run s = .error msg s := rfl

/-- Run an operation on a part of a larger state. -/
def onPart {ε σ τ α : Type} (get : τ → σ) (set : σ → τ → τ) (x : EStateM ε σ α) :
    EStateM ε τ α := fun t =>
  match x.run (get t) with
  | .ok a s => .ok a (set s t)
  | .error e s => .error e (set s t)

/-- Run an operation and hand its outcome on as a value. -/
def attempt {ε σ α : Type} (x : EStateM ε σ α) : EStateM ε σ (Except ε α) := fun s =>
  match x.run s with
  | .ok a s' => .ok (.ok a) s'
  | .error e s' => .ok (.error e) s'

/-- The outcome of an operation, without the state. -/
def outcome {ε σ α : Type} : EStateM.Result ε σ α → Except ε α
  | .ok a _ => .ok a
  | .error e _ => .error e

/-- The state an operation leaves, however it ended. -/
def final {ε σ α : Type} : EStateM.Result ε σ α → σ
  | .ok _ s => s
  | .error _ s => s

section Results
variable {ε σ α : Type}

@[simp] theorem outcome_ok (a : α) (s : σ) : outcome (.ok a s : EStateM.Result ε σ α) = .ok a := rfl
@[simp] theorem outcome_error (e : ε) (s : σ) :
    outcome (.error e s : EStateM.Result ε σ α) = .error e := rfl
@[simp] theorem final_ok (a : α) (s : σ) : final (.ok a s : EStateM.Result ε σ α) = s := rfl
@[simp] theorem final_error (e : ε) (s : σ) :
    final (.error e s : EStateM.Result ε σ α) = s := rfl

/-- `attempt` never fails: it ends where the operation ended, with its outcome. -/
theorem attempt_run (x : EStateM ε σ α) (s : σ) :
    (attempt x).run s = .ok (outcome (x.run s)) (final (x.run s)) := by
  simp only [attempt, EStateM.run]
  cases x s <;> rfl

end Results

/-! ## What an operation keeps

`Keeps P x`: if `P` holds before `x` it holds after it, whether `x` succeeded or not. -/

def Keeps {ε σ α : Type} (P : σ → Prop) (x : EStateM ε σ α) : Prop :=
  ∀ s, P s → P (final (x.run s))

namespace Keeps
variable {ε σ α β : Type} {P : σ → Prop}

theorem of_ok {x : EStateM ε σ α} (hx : Keeps P x) {s s' : σ} (hs : P s) {a : α}
    (h : x.run s = .ok a s') : P s' := by
  have hkeep := hx s hs
  rwa [h] at hkeep

theorem of_error {x : EStateM ε σ α} (hx : Keeps P x) {s s' : σ} (hs : P s) {e : ε}
    (h : x.run s = .error e s') : P s' := by
  have hkeep := hx s hs
  rwa [h] at hkeep

theorem pure (a : α) : Keeps P (Pure.pure a : EStateM ε σ α) := fun _ hs => hs

theorem throw (e : ε) : Keeps P (MonadExcept.throw e : EStateM ε σ α) := fun _ hs => hs

theorem bind {x : EStateM ε σ α} {f : α → EStateM ε σ β} (hx : Keeps P x)
    (hf : ∀ a, Keeps P (f a)) : Keeps P (x >>= f) := by
  intro s hs
  have h := hx s hs
  rw [EStateM.run_bind]
  cases hr : x.run s with
  | ok a t => exact hf a t (by simpa [hr] using h)
  | error e t => simpa [hr] using h

theorem ite {c : Prop} [Decidable c] {x y : EStateM ε σ α} (hx : Keeps P x) (hy : Keeps P y) :
    Keeps P (if c then x else y) := by
  split
  · exact hx
  · exact hy

theorem orThrow (msg : String) (o : Option α) :
    Keeps P (ByteStream.orThrow msg o : EStateM String σ α) := by
  cases o with
  | some a => exact pure a
  | none => exact throw msg

theorem context {msg : String} {x : EStateM String σ α} (hx : Keeps P x) :
    Keeps P (ByteStream.context msg x) := by
  intro s hs
  have h := hx s hs
  simp only [ByteStream.context, EStateM.run] at h ⊢
  split <;> simp_all

end Keeps

/-! ## Sending -/

/-- The sending end: the bytes accepted so far, how many more the connection will
take (`none` when it takes all), whether the stream was finished, and whether a
write has failed. -/
structure SendStream where
  sent : List UInt8 := []
  room : Option Nat := none
  finished : Bool := false
  lost : Bool := false
  deriving DecidableEq, Repr

namespace SendStream

/-- Write all of `bs`; on failure the part that fitted has gone out. -/
def writeAll (bs : List UInt8) : EStateM String SendStream Unit := fun s =>
  if s.finished then .error "closed stream" s
  else if s.lost then .error "connection lost" s
  else match s.room with
    | none => .ok () { s with sent := s.sent ++ bs }
    | some r =>
      if bs.length ≤ r then .ok () { s with sent := s.sent ++ bs, room := some (r - bs.length) }
      else
      .error "connection lost" { s with sent := s.sent ++ bs.take r, room := some 0, lost := true }

def writeU8 (b : UInt8) : EStateM String SendStream Unit := writeAll [b]
def writeU16 (n : UInt16) : EStateM String SendStream Unit := writeAll (toBytesBE 2 n.toNat)
def writeU64 (n : UInt64) : EStateM String SendStream Unit := writeAll (toBytesBE 8 n.toNat)

/-- End the stream; nothing can be written after it. -/
def finish : EStateM String SendStream Unit := fun s =>
  if s.finished then .error "closed stream" s else .ok () { s with finished := true }

theorem writeAll_ok {bs : List UInt8} {s s' : SendStream} (h : (writeAll bs).run s = .ok () s') :
    s'.sent = s.sent ++ bs ∧ s'.finished = s.finished ∧ s.lost = false ∧ s'.lost = false := by
  simp only [EStateM.run, writeAll] at h
  split at h
  · cases h
  · split at h
    · cases h
    · rename_i hlost
      replace hlost : s.lost = false := by simpa using hlost
      split at h
      · cases h
        exact ⟨rfl, rfl, hlost, hlost⟩
      · split at h
        · cases h
          exact ⟨rfl, rfl, hlost, hlost⟩
        · cases h

/-- A failed write on an unfinished stream leaves the stream lost, with a proper
part of the bytes gone out, or none if it was lost before. -/
theorem writeAll_error {bs : List UInt8} {s s' : SendStream} {e : String}
    (hfin : s.finished = false) (h : (writeAll bs).run s = .error e s') :
    s'.finished = false ∧ s'.lost = true ∧
      ∃ r, s'.sent = s.sent ++ bs.take r ∧ (r = 0 ∨ s.lost = false ∧ r < bs.length) := by
  simp only [EStateM.run, writeAll, hfin] at h
  split at h
  · contradiction
  · split at h
    · rename_i hlost
      cases h
      exact ⟨hfin, hlost, 0, by simp, .inl rfl⟩
    · rename_i hlost
      split at h
      · cases h
      · split at h
        · cases h
        · rename_i r _ hroom
          cases h
          exact ⟨rfl, rfl, r, rfl, .inr ⟨by simpa using hlost, by omega⟩⟩

theorem finish_ok {s s' : SendStream} (h : finish.run s = .ok () s') :
    s'.sent = s.sent ∧ s'.finished = true ∧ s'.lost = s.lost := by
  simp only [EStateM.run, finish] at h
  split at h
  · cases h
  · cases h
    exact ⟨rfl, rfl, rfl⟩

theorem finish_error {s s' : SendStream} {e : String} (h : finish.run s = .error e s') :
    s' = s := by
  simp only [EStateM.run, finish] at h
  split at h
  · cases h
    rfl
  · cases h

/-- A stream that never fails takes every write while it is not finished. -/
theorem writeAll_open (sent bs : List UInt8) :
    (writeAll bs).run ⟨sent, none, false, false⟩ = .ok () ⟨sent ++ bs, none, false, false⟩ := rfl

end SendStream

/-! ## Receiving -/

/-- The receiving end: what has arrived and was not read yet, and whether the peer
ended the stream after it. -/
structure RecvStream where
  bytes : List UInt8
  finished : Bool := true
  deriving DecidableEq, Repr

namespace RecvStream

/-- The error of a read that wants more than the stream has: `ended` if the peer ended it. -/
def shortOf (s : RecvStream) (ended : String) : String :=
  if s.finished then ended else "connection lost"

/-- Read `n` bytes; a stream that ends before is read to its end, and `ended` says with how
many bytes. -/
def readFull (n : Nat) (ended : Nat → String) : EStateM String RecvStream (List UInt8) := fun s =>
  if n ≤ s.bytes.length then .ok (s.bytes.take n) { s with bytes := s.bytes.drop n }
  else .error (s.shortOf (ended s.bytes.length)) { s with bytes := [] }

/-- Read exactly `n` bytes; it fails when the stream ends before. -/
def readExact (n : Nat) : EStateM String RecvStream (List UInt8) :=
  readFull n fun read => s!"stream finished early ({read} bytes read)"

/-- The error of a number that is cut short. -/
def unexpectedEof : String := "unexpected end of file"

def readU8 : EStateM String RecvStream UInt8 := fun s =>
  match s.bytes with
  | b :: rest => .ok b { s with bytes := rest }
  | [] => .error (s.shortOf unexpectedEof) s

def readU16 : EStateM String RecvStream UInt16 := do
  return UInt16.ofNat (ofBytesBE (← readFull 2 fun _ => unexpectedEof))

def readU64 : EStateM String RecvStream UInt64 := do
  return UInt64.ofNat (ofBytesBE (← readFull 8 fun _ => unexpectedEof))

/-- Read up to the end of the stream, at most `limit` bytes. -/
def readToEnd (limit : Nat) : EStateM String RecvStream (List UInt8) := fun s =>
  if s.bytes.length ≤ limit then
    if s.finished then .ok s.bytes { s with bytes := [] } else .error "connection lost" s
  else .error "stream too long" s

@[simp] theorem readU8_cons (b : UInt8) (rest : List UInt8) (fin : Bool) :
    readU8.run ⟨b :: rest, fin⟩ = .ok b ⟨rest, fin⟩ := rfl

theorem readU8_ok {s s' : RecvStream} {b : UInt8} (h : readU8.run s = .ok b s') :
    s.bytes = b :: s'.bytes := by
  obtain ⟨bytes, fin⟩ := s
  cases bytes with
  | nil => cases h
  | cons c rest =>
    cases h
    rfl

theorem readU64_length {s s' : RecvStream} {n : UInt64} (h : readU64.run s = .ok n s') :
    s'.bytes.length ≤ s.bytes.length := by
  obtain ⟨bs, t, h1, h2⟩ := bind_ok h
  cases h2
  simp only [EStateM.run, readFull] at h1
  split at h1
  · cases h1
    simp
  · cases h1

/-- Reading the bytes at the front of the stream. -/
theorem readFull_append (bs rest : List UInt8) (fin : Bool) (ended : Nat → String) :
    (readFull bs.length ended).run ⟨bs ++ rest, fin⟩ = .ok bs ⟨rest, fin⟩ := by
  simp [EStateM.run, readFull]

theorem readExact_append (bs rest : List UInt8) (fin : Bool) :
    (readExact bs.length).run ⟨bs ++ rest, fin⟩ = .ok bs ⟨rest, fin⟩ :=
  readFull_append ..

theorem readFull_short {n : Nat} {s : RecvStream} (h : s.bytes.length < n)
    (ended : Nat → String) : (readFull n ended).run s =
      .error (s.shortOf (ended s.bytes.length)) { s with bytes := [] } := by
  simp [EStateM.run, readFull, Nat.not_le.mpr h]

/-- What was read was at the front of the stream. -/
theorem readFull_ok {n : Nat} {s s' : RecvStream} {bs : List UInt8} {ended : Nat → String}
    (h : (readFull n ended).run s = .ok bs s') :
    s.bytes = bs ++ s'.bytes ∧ bs.length = n ∧ s'.finished = s.finished := by
  simp only [EStateM.run, readFull] at h
  split at h
  · cases h
    exact ⟨(List.take_append_drop ..).symm, List.length_take_of_le ‹_›, rfl⟩
  · cases h

theorem readExact_ok {n : Nat} {s s' : RecvStream} {bs : List UInt8}
    (h : (readExact n).run s = .ok bs s') :
    s.bytes = bs ++ s'.bytes ∧ bs.length = n ∧ s'.finished = s.finished :=
  readFull_ok h

theorem readU16_ok {s s' : RecvStream} {n : UInt16} (h : readU16.run s = .ok n s') :
    s.bytes = toBytesBE 2 n.toNat ++ s'.bytes ∧ s'.finished = s.finished := by
  obtain ⟨bs, t, h1, h2⟩ := bind_ok h
  obtain ⟨hbytes, hlen, hfin⟩ := readFull_ok h1
  cases h2
  have hlt := ofBytesBE_lt bs
  rw [hlen] at hlt
  have hback := toBytesBE_ofBytesBE bs
  rw [hlen] at hback
  have hn : (UInt16.ofNat (ofBytesBE bs)).toNat = ofBytesBE bs := UInt16.toNat_ofNat_of_lt hlt
  rw [hn, hback]
  exact ⟨hbytes, hfin⟩

theorem readU64_ok {s s' : RecvStream} {n : UInt64} (h : readU64.run s = .ok n s') :
    s.bytes = toBytesBE 8 n.toNat ++ s'.bytes ∧ s'.finished = s.finished := by
  obtain ⟨bs, t, h1, h2⟩ := bind_ok h
  obtain ⟨hbytes, hlen, hfin⟩ := readFull_ok h1
  cases h2
  have hlt := ofBytesBE_lt bs
  rw [hlen] at hlt
  have hback := toBytesBE_ofBytesBE bs
  rw [hlen] at hback
  have hn : (UInt64.ofNat (ofBytesBE bs)).toNat = ofBytesBE bs := UInt64.toNat_ofNat_of_lt hlt
  rw [hn, hback]
  exact ⟨hbytes, hfin⟩

theorem readToEnd_ok {limit : Nat} {s s' : RecvStream} {bs : List UInt8}
    (h : (readToEnd limit).run s = .ok bs s') :
    s.bytes = bs ∧ bs.length ≤ limit ∧ s.finished = true := by
  simp only [EStateM.run, readToEnd] at h
  split at h
  · split at h
    · cases h
      exact ⟨rfl, ‹_›, ‹_›⟩
    · cases h
  · cases h

/-- Reading back a written `u16`. -/
theorem readU16_append (n : UInt16) (rest : List UInt8) (fin : Bool) :
    readU16.run ⟨toBytesBE 2 n.toNat ++ rest, fin⟩ = .ok n ⟨rest, fin⟩ := by
  have h := readFull_append (toBytesBE 2 n.toNat) rest fin fun _ => unexpectedEof
  rw [length_toBytesBE] at h
  have hn : n.toNat < 256 ^ 2 := n.toNat_lt
  rw [readU16, EStateM.run_bind, h]
  simp [ofBytesBE_toBytesBE hn]

/-- Reading back a written `u64`. -/
theorem readU64_append (n : UInt64) (rest : List UInt8) (fin : Bool) :
    readU64.run ⟨toBytesBE 8 n.toNat ++ rest, fin⟩ = .ok n ⟨rest, fin⟩ := by
  have h := readFull_append (toBytesBE 8 n.toNat) rest fin fun _ => unexpectedEof
  rw [length_toBytesBE] at h
  have hn : n.toNat < 256 ^ 8 := n.toNat_lt
  rw [readU64, EStateM.run_bind, h]
  simp [ofBytesBE_toBytesBE hn]

theorem readU64_short {s : RecvStream} (h : s.bytes.length < 8) :
    readU64.run s = .error (s.shortOf unexpectedEof) { s with bytes := [] } := by
  rw [readU64, EStateM.run_bind, readFull_short h]

end RecvStream
end ByteStream
