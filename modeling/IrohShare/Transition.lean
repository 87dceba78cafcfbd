import Mathlib.Data.Option.Basic

/-!
# Machines with labelled partial steps

A `Machine` moves by labels: `step s a` is `some s'` when the label `a` can
happen in `s`, and every choice the outside world makes is in the label, so a
machine can be run on a list of labels (`exec`).

A run is followed through `ReachableBy C`, the states reached by steps that all
meet `C`.  With `C` true it is plain reachability; a smaller `C` says what the
runs of interest avoid.  A `Logged` machine carries beside its state the events
its steps emit, most recent first; `Logged.forall_event` turns a fact about each
emitting step into a fact about every event of every log.
-/
namespace Transition

universe u v w

/-- A machine: its initial states, and one partial step for each label. -/
structure Machine (State : Type u) (Action : Type v) where
  init : State → Prop
  step : State → Action → Option State

namespace Machine
variable {State : Type u} {Action : Type v} (M : Machine State Action)

/-- The states reached from an initial one by steps that all meet `C`. -/
inductive ReachableBy (C : State → Action → Prop) : State → Prop
  | init {s : State} : M.init s → ReachableBy C s
  | step {s s' : State} {a : Action} :
      ReachableBy C s → C s a → M.step s a = some s' → ReachableBy C s'

/-- The states reached by any steps. -/
abbrev Reachable : State → Prop := M.ReachableBy (fun _ _ => True)

/-- The state after the labels of a list, in order, if each of them can happen. -/
def exec : State → List Action → Option State
  | s, [] => some s
  | s, a :: as => (M.step s a).bind (fun s' => exec s' as)

variable {M}

theorem exec_cons (s : State) (a : Action) (as : List Action) :
    M.exec s (a :: as) = (M.step s a).bind (fun s' => M.exec s' as) := rfl

theorem exec_cons_of_step {s s' : State} {a : Action} (h : M.step s a = some s')
    (as : List Action) : M.exec s (a :: as) = M.exec s' as := by
  rw [exec_cons, h, Option.bind_some]

theorem exec_append (s : State) (as bs : List Action) :
    M.exec s (as ++ bs) = (M.exec s as).bind (fun s' => M.exec s' bs) := by
  induction as generalizing s with
  | nil => rfl
  | cons a as ih =>
    rw [List.cons_append, exec_cons, exec_cons, Option.bind_assoc]
    exact congrArg _ (funext ih)

/-- A stronger condition on the steps reaches fewer states. -/
theorem ReachableBy.mono {C D : State → Action → Prop} (h : ∀ s a, C s a → D s a)
    {s : State} (hs : M.ReachableBy C s) : M.ReachableBy D s := by
  induction hs with
  | init hi => exact .init hi
  | step _ hc hstep ih => exact .step ih (h _ _ hc) hstep

theorem ReachableBy.reachable {C : State → Action → Prop} {s : State}
    (hs : M.ReachableBy C s) : M.Reachable s :=
  hs.mono (fun _ _ _ => trivial)

variable (M) in
/-- Every label of a list meets `C` in the state it is taken in. -/
def Meets (C : State → Action → Prop) : State → List Action → Prop
  | _, [] => True
  | s, a :: as => C s a ∧ ∀ s', M.step s a = some s' → Meets C s' as

/-- Running labels that meet `C` stays in the states reached by such steps. -/
theorem ReachableBy.exec {C : State → Action → Prop} {s s' : State} {as : List Action}
    (hs : M.ReachableBy C s) (hmeets : M.Meets C s as) (h : M.exec s as = some s') :
    M.ReachableBy C s' := by
  induction as generalizing s with
  | nil => exact Option.some.inj h ▸ hs
  | cons a as ih =>
    rw [exec_cons, Option.bind_eq_some_iff] at h
    obtain ⟨t, hst, hrun⟩ := h
    exact ih (.step hs hmeets.1 hst) (hmeets.2 t hst) hrun

instance instDecidableMeets {C : State → Action → Prop} [∀ s a, Decidable (C s a)] :
    ∀ (s : State) (as : List Action), Decidable (M.Meets C s as)
  | _, [] => .isTrue trivial
  | s, a :: as =>
    match hst : M.step s a with
    | none =>
      decidable_of_iff (C s a) (by simp [Meets, hst])
    | some t =>
      have := instDecidableMeets (C := C) t as
      decidable_of_iff (C s a ∧ M.Meets C t as) (by simp [Meets, hst])

theorem meets_true (s : State) (as : List Action) : M.Meets (fun _ _ => True) s as := by
  induction as generalizing s with
  | nil => trivial
  | cons a as ih => exact ⟨trivial, fun s' _ => ih s'⟩

/-- Running labels from a reachable state stays in the reachable states. -/
theorem Reachable.exec {s s' : State} {as : List Action} (hs : M.Reachable s)
    (h : M.exec s as = some s') : M.Reachable s' :=
  ReachableBy.exec hs (meets_true s as) h

/-- **The invariant rule.**  What holds initially and survives each step that
meets `C` holds of every state reached by such steps.  The step may use that its
source is reached. -/
theorem ReachableBy.invariant {C : State → Action → Prop} {I : State → Prop}
    (hinit : ∀ s, M.init s → I s)
    (hstep : ∀ s a s', M.ReachableBy C s → I s → C s a → M.step s a = some s' → I s')
    {s : State} (hs : M.ReachableBy C s) : I s := by
  induction hs with
  | init hi => exact hinit _ hi
  | step hr hc hst ih => exact hstep _ _ _ hr ih hc hst

end Machine

/-! ## Logs -/

/-- A state together with the events emitted on the way to it, most recent first. -/
structure Logged (State : Type u) (Event : Type w) where
  state : State
  log : List Event

namespace Machine
variable {State : Type u} {Action : Type v} {Event : Type w}

/-- The machine `M` with a log: the step `a` from `s` emits `obs s a`. -/
def logged (M : Machine State Action) (obs : State → Action → Option Event) :
    Machine (Logged State Event) Action where
  init l := M.init l.state ∧ l.log = []
  step l a := (M.step l.state a).map (fun s' => ⟨s', (obs l.state a).toList ++ l.log⟩)

variable {M : Machine State Action} {obs : State → Action → Option Event}

theorem logged_step_iff {l l' : Logged State Event} {a : Action} :
    (M.logged obs).step l a = some l' ↔
      M.step l.state a = some l'.state ∧ l'.log = (obs l.state a).toList ++ l.log := by
  obtain ⟨s', log'⟩ := l'
  constructor
  · intro h
    obtain ⟨t, hst, heq⟩ := Option.map_eq_some_iff.mp h
    cases heq
    exact ⟨hst, rfl⟩
  · rintro ⟨hst, hlog⟩
    simp only at hst hlog
    subst hlog
    exact Option.map_eq_some_iff.mpr ⟨s', hst, rfl⟩

/-- A run has a log. -/
theorem Reachable.logged {s : State} (hs : M.Reachable s) (obs : State → Action → Option Event) :
    ∃ log, (M.logged obs).Reachable ⟨s, log⟩ := by
  induction hs with
  | init hi => exact ⟨[], .init ⟨hi, rfl⟩⟩
  | @step s s' a _ _ hst ih =>
    obtain ⟨log, hl⟩ := ih
    exact ⟨(obs s a).toList ++ log, .step hl trivial (logged_step_iff.mpr ⟨hst, rfl⟩)⟩

/-- **Events inherit what their steps guarantee.**  If every step that emits `e`
leaves behind a log of which `Q e` holds, then in every log `Q e` holds of what
was there before `e`. -/
theorem ReachableBy.forall_event {C : Logged State Event → Action → Prop}
    {Q : Event → List Event → Prop}
    (hstep : ∀ l a l' e, (M.logged obs).ReachableBy C l → C l a →
      (M.logged obs).step l a = some l' → obs l.state a = some e → Q e l.log)
    {l : Logged State Event} (hl : (M.logged obs).ReachableBy C l)
    {post pre : List Event} {e : Event} (hlog : l.log = post ++ e :: pre) : Q e pre := by
  induction hl generalizing post with
  | init hi => simp [hi.2] at hlog
  | @step l l' a hr hc hst ih =>
    have hout := (logged_step_iff.mp hst).2
    cases ho : obs l.state a with
    | none => exact ih (by simpa [ho, hout] using hlog)
    | some f =>
      rw [hout, ho] at hlog
      cases post with
      | nil =>
        obtain ⟨rfl, rfl⟩ := List.cons.inj hlog
        exact hstep l a l' _ hr hc hst ho
      | cons g post => exact ih (List.cons.inj hlog).2

end Machine
end Transition
