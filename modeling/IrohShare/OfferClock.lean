import IrohShare.OfferTrails

/-!
# The two timers

The same tasks with a clock.  A handler's 60 seconds start when its offer enters the
queue, the forwarder's when it shows an offer; nothing else takes time, so the clock
moves only when every task is in a wait.  The offers behind the head of the queue wait
for the forwarder while their own handlers' timers run.
-/
namespace IrohShare
open Transition Notification

/-- The length of both waits, in ticks of a second. -/
def waitSeconds : Nat := 60

/-- The process with a clock: when each offer entered the queue, when the forwarder last
began to wait, and the handlers and calls there have been. -/
structure Clocked where
  desk : Desk
  now : Nat
  enqueuedAt : HandlerId → Nat
  shownAt : Nat
  handlers : List HandlerId
  calls : List CallId

namespace Clocked
open Desk (Step)

inductive Action
  | desk (a : Desk.Action)
  | tick

def start : Clocked where
  desk := Desk.start
  now := 0
  enqueuedAt _ := 0
  shownAt := 0
  handlers := []
  calls := []

/-- A timer only fires when its time is up. -/
def due (s : Clocked) : Desk.Action → Bool
  | .elapse h => s.enqueuedAt h + waitSeconds ≤ s.now
  | .expire => s.shownAt + waitSeconds ≤ s.now
  | _ => true

/-- Handler `h` is over, in its wait, or waits for room in the queue. -/
def quietHandler (s : Clocked) (h : HandlerId) : Bool :=
  match s.desk.handlers h with
  | none => true
  | some handler =>
    match handler.phase with
    | .offering => s.desk.queue.length = Desk.queueCapacity && s.desk.forwarder ≠ .panicked
    | .waiting => handler.slot = none && !handler.senderDropped &&
        s.now < s.enqueuedAt h + waitSeconds
    | .elapsed | .accepted _ => false
    | .refused | .downloading _ | .declining | .failed => true

/-- The forwarder is over, in its wait, or waits for an offer. -/
def quietForwarder (s : Clocked) : Bool :=
  match s.desk.forwarder with
  | .receiving => s.desk.queue = []
  | .waiting _ => s.desk.answered.waiter = .parked && s.now < s.shownAt + waitSeconds
  | .panicked => true
  | _ => false

/-- Call `c` is over. -/
def quietCall (s : Clocked) (c : CallId) : Bool :=
  match s.desk.calls c with
  | .none | .returned _ _ | .failed _ => true
  | _ => false

/-- Every task is in a wait. -/
def quiet (s : Clocked) : Bool :=
  s.handlers.all s.quietHandler && s.quietForwarder && s.calls.all s.quietCall

def step (s : Clocked) : Action → Option Clocked
  | .desk a =>
    if s.due a then
      (s.desk.step a).map (fun desk => { s with
        desk
        enqueuedAt := match a with
          | .enqueue h => Function.update s.enqueuedAt h s.now
          | _ => s.enqueuedAt
        shownAt := match a with
          | .enterWait => s.now
          | _ => s.shownAt
        handlers := match a with
          | .connect h _ _ => h :: s.handlers
          | _ => s.handlers
        calls := match a with
          | .respond c _ _ _ _ => c :: s.calls
          | _ => s.calls })
    else none
  | .tick => if s.quiet then some { s with now := s.now + 1 } else none

def machine : Machine Clocked Action where
  init s := s = start
  step := step

/-- A step of a task on the clock is a step of the task, taken when it is due. -/
theorem step_desk {s s' : Clocked} {a : Desk.Action} (hst : s.step (.desk a) = some s') :
    s.due a = true ∧ s.desk.step a = some s'.desk ∧ s'.now = s.now ∧
      ∀ h, a ≠ .enqueue h → s'.enqueuedAt h = s.enqueuedAt h := by
  simp only [step] at hst
  obtain ⟨hdue, hmap⟩ := Option.ite_none_right_eq_some.mp hst
  obtain ⟨desk, hdesk, rfl⟩ := Option.map_eq_some_iff.mp hmap
  refine ⟨hdue, hdesk, rfl, fun h hne => ?_⟩
  cases a with
  | enqueue h' =>
    have hh : h ≠ h' := by
      rintro rfl
      exact hne rfl
    exact Function.update_of_ne hh _ _
  | _ => rfl

/-- The clock moves when every task is in a wait. -/
theorem step_tick {s s' : Clocked} (hst : s.step .tick = some s') :
    s.quietForwarder = true ∧ s' = { s with now := s.now + 1 } := by
  simp only [step] at hst
  obtain ⟨hquiet, hs'⟩ := Option.ite_none_right_eq_some.mp hst
  simp only [quiet, Bool.and_eq_true] at hquiet
  exact ⟨hquiet.1.2, (Option.some.inj hs').symm⟩

/-- Forgetting the clock of a run gives a run. -/
theorem reachable_desk {C : Clocked → Action → Prop} {s : Clocked}
    (hs : machine.ReachableBy C s) : Desk.machine.Reachable s.desk := by
  induction hs with
  | init hi =>
    cases hi
    exact .init rfl
  | @step s s' a _ _ hst ih =>
    cases a with
    | desk a => exact .step ih trivial (step_desk hst).2.1
    | tick =>
      obtain ⟨-, rfl⟩ := step_tick hst
      exact ih

/-! ## Offers taken off the queue in time -/

/-- The forwarder takes an offer off the queue only while its handler still waits. -/
def receivesInTime (s : Clocked) : Action → Bool
  | .desk (.recv _) =>
    match s.desk.queue with
    | request :: _ => s.now < s.enqueuedAt request.decision + waitSeconds
    | [] => true
  | _ => true

/-- The forwarder is about to show `p`, or has stored it and is about to. -/
def Showing (s : Desk) (p : PendingOffer) : Prop :=
  s.forwarder = .storing p ∨ ∃ view, s.forwarder = .emitting view ∧ s.pending = some p

/-- A handler whose sender is held waits until its time is up, and the time of an offer
that is being shown is not up. -/
structure InTime (s : Clocked) : Prop where
  waiting : ∀ {h handler}, s.desk.forwarder ≠ .panicked → s.desk.Held h →
    s.desk.handlers h = some handler → s.now < s.enqueuedAt h + waitSeconds →
    handler.phase = .waiting
  showing : ∀ {p}, Showing s.desk p → s.now < s.enqueuedAt p.decision + waitSeconds

theorem held_of_showing {s : Desk} {p : PendingOffer} (hp : Showing s p) :
    s.Held p.decision := by
  rcases hp with hf | ⟨view, -, hp⟩
  · exact .inr (.inl ⟨p, hf, rfl⟩)
  · exact .inr (.inr ⟨p, hp, rfl⟩)

/-- An offer enters the queue. -/
theorem enqueue_spec {s s' : Desk} {event : Option Desk.Event} {h : HandlerId}
    (hst : Step s (.enqueue h) event s') : ∃ handler, s.handlers h = some handler ∧
      handler.phase = .offering ∧ s'.handlers h = some { handler with phase := .waiting } := by
  cases hst with
  | enqueue hh hphase => exact ⟨_, hh, hphase, Function.update_self ..⟩

/-- A sender is held because it was, or because its offer just entered the queue. -/
theorem held_before {s s' : Desk} {a : Desk.Action} {event : Option Desk.Event} {h : HandlerId}
    (hst : Step s a event s') (hheld : s'.Held h) : s.Held h ∨ a = .enqueue h := by
  cases hst with
  | @enqueue x handler hh hphase =>
    rcases hheld with ⟨request, hmem, rfl⟩ | hheld
    · rcases List.mem_append.mp hmem with hmem | hmem
      · exact .inl (.inl ⟨request, hmem, rfl⟩)
      · cases List.mem_singleton.mp hmem
        exact .inr rfl
    · exact .inl (.inr hheld)
  | @recv peers request queue hforwarder hqueue =>
    rcases hheld with ⟨request', hmem, rfl⟩ | ⟨p, hf, rfl⟩ | hp
    · exact .inl (.inl ⟨request', hqueue ▸ List.mem_cons_of_mem _ hmem, rfl⟩)
    · cases hf
      exact .inl (.inl ⟨request, hqueue ▸ List.mem_cons_self, rfl⟩)
    · exact .inl (.inr (.inr hp))
  | overflow =>
    rcases hheld with ⟨request, hmem, -⟩ | ⟨p, hf, -⟩ | hp
    · cases hmem
    · cases hf
    · exact .inl (.inr (.inr hp))
  | store hforwarder | displace hforwarder =>
    rcases hheld with hq | ⟨p, hf, -⟩ | ⟨p, hp, rfl⟩
    · exact .inl (.inl hq)
    · cases hf
    · cases hp
      exact .inl (.inr (.inl ⟨_, hforwarder, rfl⟩))
  | takeExpired =>
    rcases hheld with hq | ⟨p, hf, -⟩ | ⟨p, hp, -⟩
    · exact .inl (.inl hq)
    · cases hf
    · cases hp
  | take =>
    rcases hheld with hq | hf | ⟨p, hp, -⟩
    · exact .inl (.inl hq)
    · exact .inl (.inr (.inl hf))
    · cases hp
  | emitIncoming | enterWait | wake | expire | skipExpired | emitExpired =>
    rcases hheld with hq | ⟨p, hf, -⟩ | hp
    · exact .inl (.inl hq)
    · cases hf
    · exact .inl (.inr (.inr hp))
  | _ => exact .inl hheld

/-- A waiting handler that has received nothing leaves its wait by the timer only. -/
theorem waiting_step {s s' : Desk} {a : Desk.Action} {event : Option Desk.Event} {h : HandlerId}
    {handler handler' : Handler} (hst : Step s a event s') (hh : s.handlers h = some handler)
    (hphase : handler.phase = .waiting) (hslot : handler.slot = none)
    (hdropped : handler.senderDropped = false) (hh' : s'.handlers h = some handler')
    (ha : a ≠ .elapse h) : handler'.phase = .waiting := by
  have hupdate : ∀ {x y z}, Function.update s.handlers x (some y) h = some z →
      (h = x → False) → z.phase = .waiting := by
    intro x y z hz hne
    rw [Function.update_of_ne hne, hh] at hz
    cases hz
    exact hphase
  have hsame : Desk.SameHandlers s'.handlers s.handlers → handler'.phase = .waiting := by
    intro hsame
    obtain ⟨_, hold, heq, -⟩ := (hsame h).2 handler' hh'
    cases hh.symm.trans hold
    exact heq.trans hphase
  cases hst with
  | connect hnone =>
    refine hupdate hh' ?_
    rintro rfl
    simp [hnone] at hh
  | enqueue hx hxphase | enqueueFails hx hxphase | dropReceiver hx hxphase | download hx hxphase
  | acceptFails hx hxphase =>
    refine hupdate hh' ?_
    rintro rfl
    cases hh.symm.trans hx
    simp [hphase] at hxphase
  | decide hx hxphase hxslot =>
    refine hupdate hh' ?_
    rintro rfl
    cases hh.symm.trans hx
    simp [hslot] at hxslot
  | decisionLost hx hxphase hxslot hxdropped =>
    refine hupdate hh' ?_
    rintro rfl
    cases hh.symm.trans hx
    simp [hdropped] at hxdropped
  | elapse hx =>
    refine hupdate hh' ?_
    rintro rfl
    exact ha rfl
  | overflow | displace => exact hsame (Desk.sameHandlers_dropSenders _)
  | takeExpired | send => exact hsame (Desk.sameHandlers_deliver _ _)
  | _ => exact hsame (.refl _)

/-- An offer is shown because it was, or because it was just taken off the queue. -/
theorem showing_before {s s' : Desk} {a : Desk.Action} {event : Option Desk.Event}
    {p : PendingOffer} (hst : Step s a event s') (hp : Showing s' p) :
    Showing s p ∨ ∃ peers request queue, a = .recv peers ∧ s.queue = request :: queue ∧
      p.decision = request.decision := by
  cases hst with
  | recv hforwarder hqueue =>
    rcases hp with hf | ⟨view, hf, -⟩ <;> cases hf
    exact .inr ⟨_, _, _, rfl, hqueue, rfl⟩
  | store hforwarder | displace hforwarder =>
    rcases hp with hf | ⟨view, -, hp⟩
    · cases hf
    · cases hp
      exact .inl (.inl hforwarder)
  | take =>
    rcases hp with hf | ⟨view, -, hp⟩
    · exact .inl (.inl hf)
    · cases hp
  | overflow | emitIncoming | enterWait | wake | expire | takeExpired | skipExpired | emitExpired =>
    rcases hp with hf | ⟨view, hf, -⟩ <;> cases hf
  | _ => exact .inl hp

/-- The panicked forwarder stays so. -/
theorem panicked_step {s s' : Desk} {a : Desk.Action} {event : Option Desk.Event}
    (hst : Step s a event s') (hs' : s'.forwarder ≠ .panicked) : s.forwarder ≠ .panicked := by
  cases hst with
  | recv hf | overflow hf | store hf | displace hf | emitIncoming hf | enterWait hf | wake hf
  | expire hf | takeExpired hf | skipExpired hf | emitExpired hf => simp [hf]
  | _ => exact hs'

theorem InTime.desk {s s' : Clocked} {a : Desk.Action} (hi : s.InTime)
    (hreach : Desk.machine.Reachable s.desk) (hin : s.receivesInTime (.desk a) = true)
    (hst : s.step (.desk a) = some s') : s'.InTime := by
  obtain ⟨hdue, hstep, hnow, henqueuedAt⟩ := step_desk hst
  have hspec := Desk.step_spec hstep
  constructor
  · intro h handler' hpanicked' hheld' hh' htime
    -- either the sender was held before, and only its timer could end the wait, or `h` begins
    rcases held_before hspec hheld' with hheld | rfl
    · have hpanicked := panicked_step hspec hpanicked'
      obtain ⟨handler, hh, henqueued, hslot, hdropped⟩ := Desk.held_handler hreach hpanicked hheld
      have hne : a ≠ .enqueue h := by
        rintro rfl
        obtain ⟨_, hx, hphase, -⟩ := enqueue_spec hspec
        cases hh.symm.trans hx
        exact henqueued.2 hphase
      rw [hnow, henqueuedAt h hne] at htime
      refine waiting_step hspec hh (hi.waiting hpanicked hheld hh htime) hslot hdropped hh' ?_
      rintro rfl
      have hup : s.enqueuedAt h + waitSeconds ≤ s.now := by simpa [due] using hdue
      omega
    · obtain ⟨_, -, -, hself⟩ := enqueue_spec hspec
      cases hself.symm.trans hh'
      rfl
  · intro p hp
    -- either it was shown before, in the same second, or the condition speaks of it
    rcases showing_before hspec hp with hp | ⟨peers, request, queue, rfl, hqueue, hdecision⟩
    · have hheld := held_of_showing hp
      have hpanicked : s.desk.forwarder ≠ .panicked := by
        rcases hp with hf | ⟨view, hf, -⟩ <;> simp [hf]
      obtain ⟨handler, hh, henqueued, -⟩ := Desk.held_handler hreach hpanicked hheld
      have hne : a ≠ .enqueue p.decision := by
        rintro rfl
        obtain ⟨_, hx, hphase, -⟩ := enqueue_spec hspec
        cases hh.symm.trans hx
        exact henqueued.2 hphase
      rw [hnow, henqueuedAt _ hne]
      exact hi.showing hp
    · rw [hnow, hdecision, henqueuedAt _ nofun]
      simpa [receivesInTime, hqueue] using hin

theorem InTime.tick {s s' : Clocked} (hi : s.InTime) (hst : s.step .tick = some s') :
    s'.InTime := by
  obtain ⟨hquiet, rfl⟩ := step_tick hst
  constructor
  · intro h handler hpanicked hheld hh htime
    have htime : s.now + 1 < s.enqueuedAt h + waitSeconds := htime
    exact hi.waiting hpanicked hheld hh (by omega)
  -- nothing is being shown while the clock moves
  · rintro p (hf | ⟨view, hf, -⟩) <;>
        simp [quietForwarder, show s.desk.forwarder = _ from hf] at hquiet

theorem inTime {s : Clocked}
    (hs : machine.ReachableBy (fun s a => s.receivesInTime a = true) s) : s.InTime := by
  refine hs.invariant ?_ ?_
  · rintro _ rfl
    refine ⟨fun _ hheld => ?_, ?_⟩
    · rcases hheld with ⟨_, hmem, -⟩ | ⟨_, hf, -⟩ | ⟨_, hp, -⟩
      · cases hmem
      · cases hf
      · cases hp
    · rintro p (hf | ⟨_, hf, -⟩) <;> cases hf
  · intro s a s' hr hi hin hst
    cases a with
    | desk a => exact hi.desk (reachable_desk hr) hin hst
    | tick => exact hi.tick hst

/-! ## Answering at once -/

/-- Store the offer, show it, and run the call that answers it and the handler's decision. -/
def answerAtOnce (p : PendingOffer) (c : CallId) (accept : Bool) (downloadDir : Option String)
    (dirs : Directories) : List Desk.Action :=
  [.store, .emitIncoming, .respond c p.view.id accept downloadDir dirs, .take c, .send c, .notify c,
    .decide p.decision]

theorem exec_answerAtOnce {s : Desk} {p : PendingOffer} {handler : Handler} {c : CallId}
    {accept : Bool} {downloadDir : Option String} {dirs : Directories} {decision : OfferDecision}
    (hforwarder : s.forwarder = .storing p) (hh : s.handlers p.decision = some handler)
    (hphase : handler.phase = .waiting) (hcall : s.calls c = .none)
    (hdecision : resolveDecision dirs accept downloadDir = .ok decision) :
    ∃ s', Desk.machine.exec s (answerAtOnce p c accept downloadDir dirs) = some s' ∧
      s'.calls c = .returned p.view.id (.ok ()) ∧
      (s'.handlers p.decision).map Handler.phase = some (Desk.afterDecision decision) := by
  obtain ⟨handler', hh', hphase'⟩ : ∃ handler',
      Desk.dropSenders s.handlers (s.pending.toList.map PendingOffer.decision) p.decision =
        some handler' ∧ handler'.phase = .waiting := by
    unfold Desk.dropSenders
    split
    · exact ⟨{ handler with senderDropped := true }, by rw [hh]; rfl, hphase⟩
    · exact ⟨handler, hh, hphase⟩
  simp [answerAtOnce, Machine.exec, Desk.machine, Desk.step, Desk.stepForwarder, Desk.stepCall,
    Desk.stepHandler, Desk.setCall, Desk.setHandler, Desk.deliver, Desk.deliverable,
    Handler.listening, hforwarder, hcall, hdecision, hh', hphase']

/-- Steps that no timer triggers can be taken on the clock as well. -/
theorem exec_desk {s : Clocked} {as : List Desk.Action} {desk : Desk}
    (hfree : ∀ a ∈ as, ∀ s : Clocked, s.due a = true)
    (h : Desk.machine.exec s.desk as = some desk) :
    ∃ s', machine.exec s (as.map .desk) = some s' ∧ s'.desk = desk ∧ s'.now = s.now := by
  induction as generalizing s with
  | nil => exact ⟨s, rfl, Option.some.inj h, rfl⟩
  | cons a as ih =>
    rw [Machine.exec_cons, Option.bind_eq_some_iff] at h
    obtain ⟨t, hst, hrun⟩ := h
    obtain ⟨s₁, hs₁, rfl, hnow⟩ :
        ∃ s₁, machine.step s (.desk a) = some s₁ ∧ s₁.desk = t ∧ s₁.now = s.now := by
      have hdesk : s.desk.step a = some t := hst
      simp only [machine, step, hfree a List.mem_cons_self s, if_true, hdesk, Option.map_some]
      exact ⟨_, rfl, rfl, rfl⟩
    obtain ⟨s', hs', hdesk, hnow'⟩ := ih (fun a ha => hfree a (List.mem_cons_of_mem _ ha)) hrun
    exact ⟨s', by rw [List.map_cons, Machine.exec_cons_of_step hs₁, hs'], hdesk, hnow'.trans hnow⟩

/-- **An offer taken off the queue in time is live when it is shown.**  In every run in
which the forwarder takes each offer off the queue before the 60 seconds of its handler
are over: while an offer is stored and shown its handler waits and has received nothing,
and an answer at that moment makes `respond_offer` return `Ok` and the handler act on
it, before the clock moves. -/
theorem shown_live {s : Clocked}
    (hs : machine.ReachableBy (fun s a => s.receivesInTime a = true) s) :
    (∀ p, Showing s.desk p → ∃ handler, s.desk.handlers p.decision = some handler ∧
      handler.phase = .waiting ∧ handler.slot = none ∧ handler.senderDropped = false) ∧
    ∀ p, s.desk.forwarder = .storing p → ∀ c accept downloadDir dirs decision,
      s.desk.calls c = .none → resolveDecision dirs accept downloadDir = .ok decision →
      ∃ s', machine.exec s ((answerAtOnce p c accept downloadDir dirs).map .desk) = some s' ∧
        s'.now = s.now ∧ s'.desk.calls c = .returned p.view.id (.ok ()) ∧
        (s'.desk.handlers p.decision).map Handler.phase = some (Desk.afterDecision decision) := by
  have hlive : ∀ p, Showing s.desk p → ∃ handler, s.desk.handlers p.decision = some handler ∧
      handler.phase = .waiting ∧ handler.slot = none ∧ handler.senderDropped = false := by
    intro p hp
    have hi := inTime hs
    have hheld := held_of_showing hp
    have hpanicked : s.desk.forwarder ≠ .panicked := by
      rcases hp with hf | ⟨view, hf, -⟩ <;> simp [hf]
    obtain ⟨handler, hh, -, hslot, hdropped⟩ :=
      Desk.held_handler (reachable_desk hs) hpanicked hheld
    exact ⟨handler, hh, hi.waiting hpanicked hheld hh (hi.showing hp), hslot, hdropped⟩
  refine ⟨hlive, fun p hforwarder c accept downloadDir dirs decision hcall hdecision => ?_⟩
  obtain ⟨handler, hh, hphase, -⟩ := hlive p (.inl hforwarder)
  obtain ⟨desk, hrun, hreturned, hacts⟩ :=
    exec_answerAtOnce hforwarder hh hphase hcall hdecision
  obtain ⟨s', hrun', rfl, hnow⟩ := exec_desk (by simp [answerAtOnce, due]) hrun
  exact ⟨s', hrun', hnow, hreturned, hacts⟩

/-- Two offers enter the queue while the first one is shown.  That is accepted after 30
seconds and the next one refused after 50, so the last has waited 40 seconds when it is
taken off the queue. -/
def queuedRun : List Action :=
  ([.connect 0 ⟨1⟩ Offer.sampleOffer, .enqueue 0, .recv [], .store, .emitIncoming,
    .enterWait] : List Desk.Action).map .desk ++
  List.replicate 10 .tick ++
  ([.connect 1 ⟨1⟩ Offer.sampleOffer, .connect 2 ⟨1⟩ Offer.sampleOffer, .enqueue 1,
    .enqueue 2] : List Desk.Action).map .desk ++
  List.replicate 20 .tick ++
  ([.respond 0 1 true none openDirectories, .take 0, .send 0, .notify 0, .decide 0, .download 0,
    .wake, .recv [], .store, .emitIncoming, .enterWait] : List Desk.Action).map .desk ++
  List.replicate 20 .tick ++
  ([.respond 1 2 false none openDirectories, .take 1, .send 1, .notify 1, .decide 1, .wake,
    .recv []] : List Desk.Action).map .desk

theorem shown_live_queuedRun : ∃ s p, machine.exec start queuedRun = some s ∧
    s.desk.forwarder = .storing p ∧ p.decision = 2 ∧ s.now = 50 ∧ s.enqueuedAt 2 = 10 ∧
    (∃ handler, s.desk.handlers p.decision = some handler ∧ handler.phase = .waiting ∧
      handler.slot = none ∧ handler.senderDropped = false) ∧
    ∃ s', machine.exec s ((answerAtOnce p 2 true none openDirectories).map .desk) = some s' ∧
      s'.now = s.now ∧ s'.desk.calls 2 = .returned 3 (.ok ()) ∧
      (s'.desk.handlers 2).map Handler.phase = some (.accepted "/documents") := by
  have hstart : machine.ReachableBy (fun s a => s.receivesInTime a = true) start := .init rfl
  have hlive := shown_live (hstart.exec
    (by decide +kernel : machine.Meets (fun s a => s.receivesInTime a = true) start queuedRun) rfl)
  exact ⟨_, _, rfl, rfl, rfl, rfl, rfl, hlive.1 _ (.inl rfl),
    hlive.2 _ rfl 2 true none openDirectories _ rfl rfl⟩

/-- Three offers enter the queue together.  The first is accepted after 30 seconds, and
the second is left to expire, after 90; the handlers of both waiting offers give up
after 60. -/
def overlappingRun : List Action :=
  ([.connect 0 ⟨1⟩ Offer.sampleOffer, .connect 1 ⟨1⟩ Offer.sampleOffer,
    .connect 2 ⟨1⟩ Offer.sampleOffer, .enqueue 0, .enqueue 1, .enqueue 2, .recv [], .store,
    .emitIncoming, .enterWait] : List Desk.Action).map .desk ++
  List.replicate 30 .tick ++
  ([.respond 0 1 true none openDirectories, .take 0, .send 0, .notify 0, .decide 0, .download 0,
    .wake, .recv [], .store, .emitIncoming, .enterWait] : List Desk.Action).map .desk ++
  List.replicate 30 .tick ++
  ([.elapse 1, .dropReceiver 1, .elapse 2, .dropReceiver 2] : List Desk.Action).map .desk ++
  List.replicate 30 .tick ++
  ([.expire, .takeExpired, .emitExpired, .recv []] : List Desk.Action).map .desk

/-- The third offer is shown 30 seconds after its handler has given up, and accepting it
at once fails. -/
theorem overlappingRun_shows_dead_offer : ∃ s p, machine.Reachable s ∧
    s.desk.forwarder = .storing p ∧ s.now = 90 ∧ s.enqueuedAt p.decision = 0 ∧
    (s.desk.handlers p.decision).map Handler.phase = some .declining ∧
    ∃ s', machine.exec s (([.store, .emitIncoming, .respond 1 p.view.id true none openDirectories,
        .take 1, .send 1, .notify 1] : List Desk.Action).map .desk) = some s' ∧
      s'.desk.calls 1 = .returned p.view.id (.error "The sender stopped waiting") := by
  have hstart : machine.Reachable start := .init rfl
  exact ⟨_, _, hstart.exec (rfl : machine.exec start overlappingRun = some _), rfl, rfl, rfl, rfl,
    _, rfl, rfl⟩

end Clocked
end IrohShare
