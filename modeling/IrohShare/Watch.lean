import Mathlib.Data.List.Basic
import Mathlib.Data.List.Induction

/-!
# A watch channel and a receiver that forwards

The channel keeps the latest value and the number of values sent, its version.  A
receiver remembers the version it has seen: `changed` reports an unseen version first,
and closure only when there is none.

`Reader` is one receiver inside the loop `while changed().await.is_ok() { … }`, whose body
takes the current value.  It records the versions it has taken; `Reader.Ok` says how they
lie in the history of the channel, at every moment of the loop.
-/
namespace Watch

universe u

structure Channel (α : Type u) where
  value : α
  version : Nat := 0
  closed : Bool := false
  deriving DecidableEq, Repr

/-- What `changed()` returns: `Ok`, or the error of a closed channel. -/
inductive Changed
  | unseen
  | closed
  deriving DecidableEq, Repr

namespace Channel
variable {α : Type u}

def send (c : Channel α) (value : α) : Channel α :=
  { c with value, version := c.version + 1 }

/-- The last sender is dropped. -/
def close (c : Channel α) : Channel α := { c with closed := true }

/-- `changed()` of a receiver that has seen version `seen`; `none` while it waits. -/
def changed (c : Channel α) (seen : Nat) : Option Changed :=
  if seen ≠ c.version then some .unseen
  else if c.closed then some .closed
  else none

theorem changed_eq_closed {c : Channel α} {seen : Nat} (h : c.changed seen = some .closed) :
    seen = c.version ∧ c.closed = true := by
  unfold changed at h
  split at h
  · cases h
  · split at h
    · exact ⟨not_not.mp ‹_›, ‹_›⟩
    · cases h

theorem changed_eq_unseen {c : Channel α} {seen : Nat} (h : c.changed seen = some .unseen) :
    seen ≠ c.version := by
  unfold changed at h
  split at h
  · rename_i hne
    exact hne
  · split at h <;> cases h

theorem changed_eq_none {c : Channel α} {seen : Nat} (h : c.changed seen = none) :
    seen = c.version ∧ c.closed = false := by
  unfold changed at h
  split at h
  · cases h
  · split at h
    · cases h
    · exact ⟨not_not.mp ‹_›, Bool.not_eq_true _ ▸ ‹_›⟩

/-- The channel started with `first`, and `sent` is what was sent on it, oldest first. -/
structure History (c : Channel α) (first : α) (sent : List α) : Prop where
  version : c.version = sent.length
  value : c.value = sent.getLast?.getD first

theorem History.new (first : α) : History (α := α) { value := first } first [] :=
  ⟨rfl, rfl⟩

theorem History.send {c : Channel α} {first : α} {sent : List α} (h : c.History first sent)
    (value : α) : (c.send value).History first (sent ++ [value]) := by
  refine ⟨?_, ?_⟩
  · rw [Channel.send, h.version, List.length_append, List.length_singleton]
  · rw [Channel.send, List.getLast?_concat, Option.getD_some]

theorem History.close {c : Channel α} {first : α} {sent : List α} (h : c.History first sent) :
    c.close.History first sent := ⟨h.version, h.value⟩

/-- The value of a version: what was sent as the `n`th, from one. -/
def valueAt (sent : List α) (n : Nat) : Option α := sent[n - 1]?

theorem History.valueAt {c : Channel α} {first : α} {sent : List α} (h : c.History first sent)
    (hpos : 0 < c.version) : Channel.valueAt sent c.version = some c.value := by
  have hne : sent ≠ [] := by
    rintro rfl
    rw [h.version] at hpos
    exact Nat.lt_irrefl 0 hpos
  rw [Channel.valueAt, h.version, ← List.getLast?_eq_getElem?, h.value,
    List.getLast?_eq_some_getLast hne, Option.getD_some]

/-- A version keeps its value when more is sent. -/
theorem valueAt_append {sent more : List α} {n : Nat} (hpos : 0 < n) (hn : n ≤ sent.length) :
    valueAt (sent ++ more) n = valueAt sent n :=
  List.getElem?_append_left (by omega)

/-- The values of increasing versions are a subsequence of what was sent. -/
theorem valueAt_sublist {sent : List α} {versions : List Nat}
    (hincr : versions.Pairwise (· < ·)) (hle : ∀ n ∈ versions, 0 < n ∧ n ≤ sent.length) :
    (versions.filterMap (valueAt sent)).Sublist sent := by
  induction versions using List.reverseRecOn generalizing sent with
  | nil => exact List.nil_sublist _
  | append_singleton versions n ih =>
    obtain ⟨hpre, -, hlast⟩ := List.pairwise_append.mp hincr
    obtain ⟨hpos, hn⟩ := hle n (by simp)
    -- everything before version `n` lies in the first `n - 1` values
    have hearlier : ∀ m ∈ versions, 0 < m ∧ m ≤ (sent.take (n - 1)).length := by
      intro m hm
      have hlt := hlast m hm n (List.mem_singleton_self n)
      rw [List.length_take]
      exact ⟨(hle m (List.mem_append_left _ hm)).1, by omega⟩
    have hsplit : sent.take (n - 1) ++ sent.drop (n - 1) = sent := List.take_append_drop ..
    have hsame : versions.filterMap (valueAt sent) =
        versions.filterMap (valueAt (sent.take (n - 1))) := by
      refine List.filterMap_congr fun m hm => ?_
      have happ : valueAt (sent.take (n - 1) ++ sent.drop (n - 1)) m = _ :=
        valueAt_append (hearlier m hm).1 (hearlier m hm).2
      rwa [hsplit] at happ
    rw [List.filterMap_append, hsame]
    conv_rhs => rw [← hsplit]
    refine (ih hpre hearlier).append ?_
    have hdrop : sent.drop (n - 1) = sent[n - 1] :: sent.drop n := by
      rw [List.drop_eq_getElem_cons (by omega), show n - 1 + 1 = n by omega]
    have hval : valueAt sent n = some sent[n - 1] := List.getElem?_eq_getElem (by omega)
    rw [hdrop, List.filterMap_cons, hval, List.filterMap_nil]
    exact (List.nil_sublist _).cons_cons _

/-! ### Waiting for a value -/

/-- What `wait_for` does when it looks: return, wait for the next version, or fail. -/
inductive Looked
  | found
  | again
  | failed
  deriving DecidableEq, Repr

/-- A look of `wait_for` that has looked at version `seen`, if at any; `none` while there
is nothing new. -/
def look (c : Channel α) (cond : α → Bool) (seen : Option Nat) : Option Looked :=
  if seen = some c.version then if c.closed then some .failed else none
  else if cond c.value then some .found
  else some .again

/-- The last version looked at did not meet the condition. -/
structure TurnedDown (c : Channel α) (cond : α → Bool) (seen : Option Nat) : Prop where
  le : ∀ n, seen = some n → n ≤ c.version
  current : seen = some c.version → cond c.value = false

variable {c : Channel α} {cond : α → Bool} {seen : Option Nat}

theorem TurnedDown.new : c.TurnedDown cond none := ⟨nofun, nofun⟩

theorem TurnedDown.send (h : c.TurnedDown cond seen) (value : α) :
    (c.send value).TurnedDown cond seen := by
  refine ⟨fun n hn => Nat.le_succ_of_le (h.le n hn), fun hseen => ?_⟩
  have hle : c.version + 1 ≤ c.version := h.le _ hseen
  omega

theorem TurnedDown.close (h : c.TurnedDown cond seen) : c.close.TurnedDown cond seen :=
  ⟨h.le, h.current⟩

/-- **`wait_for` misses nothing that lasts.**  It returns on a value that meets its
condition, and it fails or waits only while the value does not. -/
theorem TurnedDown.look (h : c.TurnedDown cond seen) :
    match c.look cond seen with
    | some .found => cond c.value = true
    | some .again => c.TurnedDown cond (some c.version)
    | some .failed => c.closed = true ∧ cond c.value = false
    | none => c.closed = false ∧ cond c.value = false := by
  unfold Channel.look
  by_cases hseen : seen = some c.version
  · rw [if_pos hseen]
    cases hclosed : c.closed with
    | true => exact ⟨rfl, h.current hseen⟩
    | false => exact ⟨rfl, h.current hseen⟩
  · rw [if_neg hseen]
    cases hcond : cond c.value with
    | true => exact rfl
    | false =>
      refine ⟨?_, fun _ => hcond⟩
      rintro _ ⟨⟩
      exact Nat.le_refl _

end Channel

/-! ## A receiver in its loop -/

/-- Where the loop is: in `changed()`, before it takes the value, in the rest of its body,
or left. -/
inductive Phase
  | waiting
  | woken
  | working
  | ended
  deriving DecidableEq, Repr

/-- A receiver in its loop, with the versions it has taken, oldest first. -/
structure Reader where
  seen : Nat := 0
  phase : Phase := .waiting
  taken : List Nat := []
  deriving DecidableEq, Repr

namespace Reader
variable {α : Type u}

/-- `changed().await` returns. -/
def wake (r : Reader) (c : Channel α) : Option Reader :=
  match r.phase, c.changed r.seen with
  | .waiting, some .unseen => some { r with seen := c.version, phase := .woken }
  | .waiting, some .closed => some { r with phase := .ended }
  | _, _ => none

/-- `borrow_and_update()`. -/
def take (r : Reader) (c : Channel α) : Option (α × Reader) :=
  match r.phase with
  | .woken =>
    some (c.value, { seen := c.version, phase := .working, taken := r.taken ++ [c.version] })
  | _ => none

/-- The body is over. -/
def resume (r : Reader) : Option Reader :=
  match r.phase with
  | .working => some { r with phase := .waiting }
  | _ => none

theorem wake_spec {r r' : Reader} {c : Channel α} (h : r.wake c = some r') :
    r.phase = .waiting ∧
      ((c.changed r.seen = some .unseen ∧ r' = { r with seen := c.version, phase := .woken }) ∨
        (c.changed r.seen = some .closed ∧ r' = { r with phase := .ended })) := by
  unfold wake at h
  split at h
  · rename_i hphase hch
    cases h
    exact ⟨hphase, .inl ⟨hch, rfl⟩⟩
  · rename_i hphase hch
    cases h
    exact ⟨hphase, .inr ⟨hch, rfl⟩⟩
  · cases h

theorem take_spec {r r' : Reader} {c : Channel α} {value : α} (h : r.take c = some (value, r')) :
    r.phase = .woken ∧ value = c.value ∧
      r' = { seen := c.version, phase := .working, taken := r.taken ++ [c.version] } := by
  unfold take at h
  split at h
  · rename_i hphase
    cases h
    exact ⟨hphase, rfl, rfl⟩
  · cases h

theorem resume_spec {r r' : Reader} (h : r.resume = some r') :
    r.phase = .working ∧ r' = { r with phase := .waiting } := by
  unfold resume at h
  split at h
  · rename_i hphase
    cases h
    exact ⟨hphase, rfl⟩
  · cases h

/-- How the versions taken by a receiver that started at version `first` lie in the
channel's history. -/
structure Ok (r : Reader) (c : Channel α) (first : Nat) : Prop where
  increasing : (first :: r.taken).Pairwise (· < ·)
  seen_le : r.seen ≤ c.version
  fresh : r.phase = .woken → r.taken.getLast?.getD first < r.seen
  latest : r.phase ≠ .woken → r.taken.getLast?.getD first = r.seen
  ended : r.phase = .ended → r.seen = c.version ∧ c.closed = true

variable {r r' : Reader} {c : Channel α} {first : Nat}

/-- A receiver that has just been made, or cloned from one that has seen `first`. -/
theorem Ok.new (h : first ≤ c.version) : Ok { seen := first } c first :=
  ⟨List.pairwise_singleton .., h, nofun, fun _ => rfl, nofun⟩

theorem Ok.send (h : r.Ok c first) (hopen : c.closed = false) (value : α) :
    r.Ok (c.send value) first where
  increasing := h.increasing
  seen_le := Nat.le_succ_of_le h.seen_le
  fresh := h.fresh
  latest := h.latest
  ended hended := by
    have hclosed := (h.ended hended).2
    rw [hopen] at hclosed
    cases hclosed

theorem Ok.close (h : r.Ok c first) : r.Ok c.close first where
  increasing := h.increasing
  seen_le := h.seen_le
  fresh := h.fresh
  latest := h.latest
  ended hended := ⟨(h.ended hended).1, rfl⟩

theorem Ok.wake (h : r.Ok c first) (hw : r.wake c = some r') : r'.Ok c first := by
  obtain ⟨hphase, ⟨hch, rfl⟩ | ⟨hch, rfl⟩⟩ := wake_spec hw
  · have hlast := h.latest (by rw [hphase]; nofun)
    have hlt : r.seen < c.version :=
      Nat.lt_of_le_of_ne h.seen_le (Channel.changed_eq_unseen hch)
    exact ⟨h.increasing, Nat.le_refl _, fun _ => hlast.symm ▸ hlt, fun hne => absurd rfl hne,
      nofun⟩
  · exact ⟨h.increasing, h.seen_le, nofun,
      fun _ => h.latest (by rw [hphase]; nofun), fun _ => Channel.changed_eq_closed hch⟩

/-- Nothing taken is past the last version taken. -/
theorem Ok.le_latest (h : r.Ok c first) {n : Nat} (hn : n ∈ first :: r.taken) :
    n ≤ r.taken.getLast?.getD first := by
  rcases List.eq_nil_or_concat r.taken with hnil | ⟨pre, last, hconcat⟩
  · rw [hnil] at hn ⊢
    exact Nat.le_of_eq (List.mem_singleton.mp hn)
  · have hincr := h.increasing
    rw [hconcat, List.concat_eq_append, ← List.cons_append] at hn hincr
    rw [hconcat, List.concat_eq_append, List.getLast?_concat, Option.getD_some]
    rcases List.mem_append.mp hn with hpre | hlast
    · exact Nat.le_of_lt
        ((List.pairwise_append.mp hincr).2.2 n hpre last (List.mem_singleton_self _))
    · exact Nat.le_of_eq (List.mem_singleton.mp hlast)

theorem Ok.take (h : r.Ok c first) {value : α} (ht : r.take c = some (value, r')) :
    0 < c.version ∧ r'.Ok c first := by
  obtain ⟨hphase, -, rfl⟩ := take_spec ht
  have hlt : r.taken.getLast?.getD first < c.version :=
    Nat.lt_of_lt_of_le (h.fresh hphase) h.seen_le
  refine ⟨Nat.zero_lt_of_lt hlt, ?_, Nat.le_refl _, nofun, fun _ => ?_, nofun⟩
  · rw [← List.cons_append]
    refine List.pairwise_append.mpr ⟨h.increasing, List.pairwise_singleton .., ?_⟩
    intro m hm n hn
    rw [List.mem_singleton.mp hn]
    exact Nat.lt_of_le_of_lt (h.le_latest hm) hlt
  · rw [List.getLast?_concat, Option.getD_some]

theorem Ok.resume (h : r.Ok c first) (hr : r.resume = some r') : r'.Ok c first := by
  obtain ⟨hphase, rfl⟩ := resume_spec hr
  exact ⟨h.increasing, h.seen_le, nofun, fun _ => h.latest (by rw [hphase]; nofun), nofun⟩

theorem Ok.mem_taken (h : r.Ok c first) {n : Nat} (hn : n ∈ r.taken) :
    first < n ∧ n ≤ c.version := by
  refine ⟨List.rel_of_pairwise_cons h.increasing hn, ?_⟩
  have hle := h.le_latest (List.mem_cons_of_mem _ hn)
  by_cases hphase : r.phase = .woken
  · exact Nat.le_trans hle (Nat.le_trans (Nat.le_of_lt (h.fresh hphase)) h.seen_le)
  · exact Nat.le_trans hle (h.latest hphase ▸ h.seen_le)

/-- A loop that has seen everything has taken the last version, if there is one past its
first. -/
theorem Ok.getLast_taken (h : r.Ok c first) (hphase : r.phase ≠ .woken)
    (hseen : r.seen = c.version) (hlt : first < c.version) :
    r.taken.getLast? = some c.version := by
  have hlast := h.latest hphase
  rw [hseen] at hlast
  cases hopt : r.taken.getLast? with
  | none =>
    rw [hopt, Option.getD_none] at hlast
    omega
  | some n =>
    rw [hopt, Option.getD_some] at hlast
    rw [hlast]

/-- When the channel is closed, the loop can go on until it has ended. -/
theorem moves_of_closed (r : Reader) (hclosed : c.closed = true) :
    (r.wake c).isSome ∨ (r.take c).isSome ∨ r.resume.isSome ∨ r.phase = .ended := by
  cases hphase : r.phase with
  | waiting =>
    have hch : c.changed r.seen ≠ none := by
      intro hnone
      rw [(Channel.changed_eq_none hnone).2] at hclosed
      cases hclosed
    cases hc : c.changed r.seen with
    | none => exact absurd hc hch
    | some ch => cases ch <;> simp [wake, hphase, hc]
  | woken => simp [take, hphase]
  | working => simp [resume, hphase]
  | ended => simp

end Reader
end Watch
