import Mathlib.Data.List.Perm.Basic

/-!
# Counted pins

Each holder holds at most one pin, and many holders may hold the same one.  Pins are
counted: a release takes away one of them.  `Counted` says that the pins are those that
the holders hold, each as often as it is held, so that a pin is there as long as one
holder has it.
-/
namespace Pins

universe u v
variable {τ : Type u} {κ : Type v} {held : κ → Option τ}

/-- The pins are those that the holders hold. -/
def Counted (held : κ → Option τ) (pins : List τ) (holders : List κ) : Prop :=
  pins.Perm (holders.filterMap held)

variable {pins : List τ} {holders : List κ} {k : Nat} {c c' : κ} {t : τ}

theorem Counted.mem (h : Counted held pins holders) (hc : c ∈ holders) (ht : held c = some t) :
    t ∈ pins :=
  h.mem_iff.mpr (List.mem_filterMap.mpr ⟨c, hc, ht⟩)

/-- A new holder comes with nothing. -/
theorem Counted.join (h : Counted held pins holders) (hc : held c = none) :
    Counted held pins (holders ++ [c]) := by
  rw [Counted, List.filterMap_append, List.filterMap_cons_none hc, List.filterMap_nil,
    List.append_nil]
  exact h

/-- What holder `k` holds comes first, up to the order. -/
theorem perm_of_getElem (held : κ → Option τ) (hk : holders[k]? = some c) :
    (holders.filterMap held).Perm
      ((held c).toList ++ (holders.eraseIdx k).filterMap held) := by
  obtain ⟨hlt, rfl⟩ := List.getElem?_eq_some_iff.mp hk
  have hperm := (List.getElem_cons_eraseIdx_perm hlt).symm.filterMap held
  refine hperm.trans (List.Perm.of_eq ?_)
  rw [List.filterMap_cons]
  cases held holders[k] <;> rfl

theorem perm_of_set (held : κ → Option τ) (hk : holders[k]? = some c) (c' : κ) :
    ((holders.set k c').filterMap held).Perm
      ((held c').toList ++ (holders.eraseIdx k).filterMap held) := by
  obtain ⟨hlt, -⟩ := List.getElem?_eq_some_iff.mp hk
  have hperm := (List.set_perm_cons_eraseIdx hlt c').filterMap held
  refine hperm.trans (List.Perm.of_eq ?_)
  rw [List.filterMap_cons]
  cases held c' <;> rfl

/-- A holder that changes and keeps what it holds. -/
theorem Counted.keep (h : Counted held pins holders) (hk : holders[k]? = some c)
    (hsame : held c' = held c) : Counted held pins (holders.set k c') :=
  (h.trans (perm_of_getElem held hk)).trans (hsame ▸ (perm_of_set held hk c').symm)

/-- A holder with nothing takes a pin. -/
theorem Counted.pin (h : Counted held pins holders) (hk : holders[k]? = some c)
    (hc : held c = none) (hc' : held c' = some t) :
    Counted held (t :: pins) (holders.set k c') := by
  have hold := h.trans (perm_of_getElem held hk)
  have hnew := perm_of_set held hk c'
  rw [hc, Option.toList_none, List.nil_append] at hold
  rw [hc', Option.toList_some, List.singleton_append] at hnew
  exact (hold.cons t).trans hnew.symm

/-- A holder gives up its pin; another one of the same kind stays. -/
theorem Counted.release [DecidableEq τ] (h : Counted held pins holders)
    (hk : holders[k]? = some c) (hc : held c = some t) (hc' : held c' = none) :
    Counted held (pins.erase t) (holders.set k c') := by
  have hold := h.trans (perm_of_getElem held hk)
  have hnew := perm_of_set held hk c'
  rw [hc, Option.toList_some, List.singleton_append] at hold
  rw [hc', Option.toList_none, List.nil_append] at hnew
  have herased := hold.erase t
  rw [List.erase_cons_head] at herased
  exact herased.trans hnew.symm

end Pins
