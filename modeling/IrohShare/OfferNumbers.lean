import IrohShare.OfferDesk

/-!
# The numbers of the offers

`forward_offers` numbers the offers in the order it takes them off the queue.  The
slot only ever holds the offer stored last, so an offer a call has removed does not
come back, and an expired wait takes its own offer or none.
-/
namespace IrohShare

/-- The offer of the iteration `forward_offers` is in, once it is stored. -/
def Forwarder.current : Forwarder → Option Nat
  | .emitting view => some view.id
  | .entering id => some id
  | .waiting id => some id
  | .expired id => some id
  | .retiring id => some id
  | _ => none

namespace Desk
open Transition

/-- The number of the offer stored last. -/
def lastStored (s : Desk) : Nat :=
  match s.forwarder with
  | .storing _ => s.nextId - 1
  | _ => s.nextId

/-- What the numbers say: the slot holds the offer stored last, the forwarder is busy
with that one, and no offer a call has removed is in the slot. -/
structure Numbered (s : Desk) : Prop where
  bound : s.nextId < UInt64.size
  pending : ∀ {p}, s.pending = some p → p.view.id = s.lastStored
  storing : ∀ {p}, s.forwarder = .storing p → p.view.id = s.nextId ∧ s.nextId = s.lastStored + 1
  current : ∀ {id}, s.forwarder.current = some id → id = s.lastStored
  retiring : ∀ {id}, s.forwarder = .retiring id → s.pending = none
  removed : ∀ {c id}, (s.calls c).removed = some id →
    id ≤ s.lastStored ∧ ∀ {p}, s.pending = some p → p.view.id ≠ id

theorem lastStored_congr {s s' : Desk} (hforwarder : s'.forwarder = s.forwarder)
    (hnext : s'.nextId = s.nextId) : s'.lastStored = s.lastStored := by
  simp only [lastStored, hforwarder, hnext]

/-- Replacing a call changes what was removed at that call only. -/
theorem removed_update {calls : CallId → Call} {c c' : CallId} {call : Call} {id : Nat}
    (h : (Function.update calls c call c').removed = some id) :
    (c' = c ∧ call.removed = some id) ∨ (c' ≠ c ∧ (calls c').removed = some id) := by
  by_cases hc : c' = c
  · subst hc
    exact .inl ⟨rfl, by simpa using h⟩
  · exact .inr ⟨hc, by simpa [hc] using h⟩

/-- The numbers depend on the forwarder and the slot, and on what calls removed. -/
theorem Numbered.of_removed {s s' : Desk} (h : s.Numbered)
    (hforwarder : s'.forwarder = s.forwarder) (hnext : s'.nextId = s.nextId)
    (hpending : s'.pending = s.pending)
    (hremoved : ∀ c id, (s'.calls c).removed = some id → (s.calls c).removed = some id) :
    s'.Numbered := by
  have hlast := lastStored_congr hforwarder hnext
  exact {
    bound := hnext ▸ h.bound
    pending := fun hp => hlast ▸ h.pending (hpending ▸ hp)
    storing := fun hf => hlast ▸ hnext ▸ h.storing (hforwarder ▸ hf)
    current := fun hc => hlast ▸ h.current (hforwarder ▸ hc)
    retiring := fun hf => hpending ▸ h.retiring (hforwarder ▸ hf)
    removed := fun hr => by
      rw [hlast, hpending]
      exact h.removed (hremoved _ _ hr) }

/-- The forwarder moves on within an iteration, or to the next `recv`. -/
theorem Numbered.of_forwarder {s s' : Desk} (h : s.Numbered) {id : Nat}
    (hfrom : s.forwarder.current = some id)
    (hto : s'.forwarder = .receiving ∨ s'.forwarder.current = some id)
    (hretiring : ∀ id, s'.forwarder = .retiring id → s'.pending = none)
    (hnext : s'.nextId = s.nextId) (hpending : s'.pending = s.pending ∨ s'.pending = none)
    (hcalls : s'.calls = s.calls) : s'.Numbered := by
  have hlast : s.lastStored = s.nextId := by
    unfold lastStored
    split
    · simp [Forwarder.current, *] at hfrom
    · rfl
  have hlast' : s'.lastStored = s.nextId := by
    unfold lastStored
    split
    · simp [Forwarder.current, *] at hto
    · exact hnext
  have hsub : ∀ {p}, s'.pending = some p → s.pending = some p := by
    intro p hp
    rcases hpending with he | he
    · exact he ▸ hp
    · simp [he] at hp
  refine ⟨hnext ▸ h.bound, fun hp => ?_, fun hf => ?_, fun hc => ?_, hretiring _, fun hr => ?_⟩
  · rw [hlast', h.pending (hsub hp), hlast]
  · rcases hto with hto | hto <;> simp [hf, Forwarder.current] at hto
  · rcases hto with hto | hto
    · simp [hto, Forwarder.current] at hc
    · rw [hlast', ← hlast, ← h.current hfrom]
      rw [hto] at hc
      exact (Option.some.inj hc).symm
  · rw [hcalls] at hr
    obtain ⟨hle, hne⟩ := h.removed hr
    exact ⟨by omega, fun hp => hne (hsub hp)⟩

theorem Numbered.start : Desk.start.Numbered := by
  refine ⟨by decide, nofun, nofun, nofun, nofun, nofun⟩

theorem Numbered.step {s s' : Desk} {a : Action} {event : Option Event} (h : s.Numbered)
    (hst : Step s a event s') : s'.Numbered := by
  cases hst with
  -- the next number is given out, but not stored yet
  | recv hforwarder hqueue hbound =>
    have hlast : s.lastStored = s.nextId := by simp [lastStored, hforwarder]
    exact {
      bound := hbound
      pending := fun hp => (h.pending hp).trans hlast
      storing := by rintro _ ⟨⟩; exact ⟨rfl, rfl⟩
      current := nofun
      retiring := nofun
      removed := fun hr => ⟨hlast ▸ (h.removed hr).1, (h.removed hr).2⟩ }
  | overflow hforwarder hqueue hbound =>
    have hlast : s.lastStored = s.nextId := by simp [lastStored, hforwarder]
    exact {
      bound := h.bound
      pending := fun hp => (h.pending hp).trans hlast
      storing := nofun
      current := nofun
      retiring := nofun
      removed := fun hr => ⟨hlast ▸ (h.removed hr).1, (h.removed hr).2⟩ }
  | store hforwarder _ | displace hforwarder _ =>
    -- every number given out before is smaller than the one stored now
    obtain ⟨hid, hnext⟩ := h.storing hforwarder
    exact {
      bound := h.bound
      pending := by rintro _ ⟨⟩; exact hid
      storing := nofun
      current := by rintro _ ⟨⟩; exact hid
      retiring := nofun
      removed := by
        intro c id hr
        have hle := (h.removed hr).1
        refine ⟨show id ≤ s.nextId by omega, ?_⟩
        rintro _ ⟨⟩
        omega }
  | emitIncoming hforwarder | enterWait hforwarder | expire hforwarder _ =>
    exact h.of_forwarder (by rw [hforwarder]; rfl) (.inr rfl) nofun rfl (.inl rfl) rfl
  | wake hforwarder _ =>
    exact h.of_forwarder (by rw [hforwarder]; rfl) (.inl rfl) nofun rfl (.inl rfl) rfl
  | takeExpired hforwarder _ =>
    exact h.of_forwarder (by rw [hforwarder]; rfl) (.inr rfl) (fun _ _ => rfl) rfl (.inr rfl) rfl
  | skipExpired hforwarder hpending =>
    exact h.of_forwarder (by rw [hforwarder]; rfl) (.inr rfl) (fun _ _ => hpending) rfl
      (.inl rfl) rfl
  | emitExpired hforwarder =>
    exact h.of_forwarder (by rw [hforwarder]; rfl) (.inl rfl) nofun rfl (.inl rfl) rfl
  | respond hc _ | respondFails hc _ | takeFails hc _ =>
    refine h.of_removed rfl rfl rfl (fun c' id hr => ?_)
    rcases removed_update hr with ⟨-, hr⟩ | ⟨-, hr⟩
    · cases hr
    · exact hr
  | @take c decision pending hc hpending =>
    exact {
      bound := h.bound
      pending := nofun
      storing := h.storing
      current := h.current
      retiring := fun _ => rfl
      removed := by
        intro c' id hr
        refine ⟨?_, nofun⟩
        rcases removed_update hr with ⟨-, hr⟩ | ⟨-, hr⟩
        · cases hr
          exact Nat.le_of_eq (h.pending hpending)
        · exact (h.removed hr).1 }
  | send hc | notify hc =>
    refine h.of_removed rfl rfl rfl (fun c' id hr => ?_)
    rcases removed_update hr with ⟨rfl, hid⟩ | ⟨-, hid⟩
    · rw [hc]
      exact hid
    · exact hid
  | _ => exact h.of_removed rfl rfl rfl (fun _ _ hr => hr)

theorem numbered {s : Desk} (hs : machine.Reachable s) : s.Numbered := by
  refine hs.invariant ?_ ?_
  · rintro _ rfl
    exact .start
  · intro s a s' _ h _ hst
    exact h.step (step_spec hst)

/-- No two calls have removed one offer. -/
def RemovedOnce (s : Desk) : Prop :=
  ∀ c c' id, (s.calls c).removed = some id → (s.calls c').removed = some id → c = c'

theorem RemovedOnce.of_removed {s s' : Desk} (h : s.RemovedOnce)
    (hremoved : ∀ c id, (s'.calls c).removed = some id → (s.calls c).removed = some id) :
    s'.RemovedOnce :=
  fun c c' id hc hc' => h c c' id (hremoved c id hc) (hremoved c' id hc')

theorem RemovedOnce.step {s s' : Desk} {a : Action} {event : Option Event} (h : s.RemovedOnce)
    (hnumbered : s.Numbered) (hst : Step s a event s') : s'.RemovedOnce := by
  cases hst with
  | respond _ _ | respondFails _ _ | takeFails _ _ =>
    refine h.of_removed (fun c id hc => ?_)
    rcases removed_update hc with ⟨-, hc⟩ | ⟨-, hc⟩
    · cases hc
    · exact hc
  | take _ hpending =>
    intro c c' id hc hc'
    rcases removed_update hc with ⟨rfl, hid⟩ | ⟨-, hold⟩ <;>
      rcases removed_update hc' with ⟨rfl, hid'⟩ | ⟨-, hold'⟩
    · rfl
    · exact absurd (Option.some.inj hid) ((hnumbered.removed hold').2 hpending)
    · exact absurd (Option.some.inj hid') ((hnumbered.removed hold).2 hpending)
    · exact h c c' id hold hold'
  | send hcall | notify hcall =>
    refine h.of_removed (fun c id hc => ?_)
    rcases removed_update hc with ⟨rfl, hid⟩ | ⟨-, hold⟩
    · rw [hcall]
      exact hid
    · exact hold
  | _ => exact h.of_removed (fun _ _ hc => hc)

theorem removedOnce {s : Desk} (hs : machine.Reachable s) : s.RemovedOnce := by
  refine hs.invariant ?_ ?_
  · rintro _ rfl
    exact nofun
  · intro s a s' hr h _ hst
    exact h.step (numbered hr) (step_spec hst)

end Desk
end IrohShare
