import IrohShare.OfferNumbers

/-!
# The trails of a run

The log of a run is read in three ways: the trail of a oneshot sender says where the
sender is, the trail of a call what the call removed, and the trail of a handler what
became of its offer.  Each trail takes one of a few shapes, by the place its owner is
in, so "at most once" and "by no other" are read off the shapes.
-/
namespace IrohShare
namespace Desk
open Transition

/-! ## Trails -/

/-- The events of the oneshot sender of handler `h`. -/
def Event.ofSender (h : HandlerId) : Event → Bool
  | assigned _ h' => h' = h
  | retired _ h' _ => h' = h
  | _ => false

/-- The events of handler `h`. -/
def Event.ofHandler (h : HandlerId) : Event → Bool
  | connected h' _ _ => h' = h
  | decided h' _ => h' = h
  | gaveUp h' => h' = h
  | download h' _ _ => h' = h
  | _ => false

/-- The events of call `c`. -/
def Event.ofCall (c : CallId) : Event → Bool
  | resolved c' _ _ => c' = c
  | retired _ _ (.call c') => c' = c
  | _ => false

/-- Events of the sender `h`, most recent first. -/
abbrev senderTrail (log : List Event) (h : HandlerId) : List Event := log.filter (Event.ofSender h)

/-- Events of the handler `h`, most recent first. -/
abbrev handlerTrail (log : List Event) (h : HandlerId) : List Event :=
  log.filter (Event.ofHandler h)

/-- Events of the call `c`, most recent first. -/
abbrev callTrail (log : List Event) (c : CallId) : List Event := log.filter (Event.ofCall c)

/-! ## Where the senders are -/

/-- Where each oneshot sender is, told by its trail: in the queue it has none, in the
hands of the forwarder and in the slot it has a number, and in the hands of the call
that took it that call retired it. -/
structure SendersTracked (s : Desk) (log : List Event) : Prop where
  born : ∀ {h}, senderTrail log h ≠ [] → ∃ handler, s.handlers h = some handler ∧ handler.enqueued
  shape : ∀ h, senderTrail log h = [] ∨ ∃ id, senderTrail log h = [.assigned id h] ∨
    ∃ cause, senderTrail log h = [.retired id h cause, .assigned id h]
  queued : ∀ {request}, request ∈ s.queue → senderTrail log request.decision = [] ∧
    ∃ handler, s.handlers request.decision = some handler ∧ handler.enqueued ∧
      handler.offer = request.offer
  nodup : (s.queue.map OfferRequest.decision).Nodup
  storing : ∀ {p}, s.forwarder = .storing p →
    senderTrail log p.decision = [.assigned p.view.id p.decision]
  pending : ∀ {p}, s.pending = some p →
    senderTrail log p.decision = [.assigned p.view.id p.decision]
  taken : ∀ {c p d}, s.calls c = .taken p d →
    senderTrail log p.decision =
      [.retired p.view.id p.decision (.call c), .assigned p.view.id p.decision]
  numbers : ∀ {id h}, .assigned id h ∈ log → id ≤ s.nextId
  unique : ∀ {id h h'}, .assigned id h ∈ log → .assigned id h' ∈ log → h = h'

/-- What a step leaves of a handler: its connection, its offer, and that it is past the
queue. -/
structure Follows (handler' handler : Handler) : Prop where
  remote : handler'.remote = handler.remote
  offer : handler'.offer = handler.offer
  enqueued : handler.enqueued → handler'.enqueued

theorem Follows.refl (handler : Handler) : Follows handler handler := ⟨rfl, rfl, id⟩

variable {handlers : HandlerId → Option Handler} {h h₀ : HandlerId}
  {handler handler₀ handler₁ : Handler}

theorem follows_update (hh₀ : handlers h₀ = some handler₀) (hf : Follows handler₁ handler₀)
    (hh : handlers h = some handler) :
    ∃ handler', Function.update handlers h₀ (some handler₁) h = some handler' ∧
      Follows handler' handler := by
  by_cases heq : h = h₀
  · subst heq
    rw [hh₀] at hh
    cases hh
    exact ⟨handler₁, Function.update_self .., hf⟩
  · exact ⟨handler, by rw [Function.update_of_ne heq, hh], .refl _⟩

theorem follows_deliver (d : OfferDecision) (hh : handlers h = some handler) :
    ∃ handler', deliver handlers h₀ d h = some handler' ∧ Follows handler' handler := by
  unfold deliver
  split
  · rename_i heq
    subst heq
    rw [hh]
    refine ⟨_, rfl, ?_⟩
    dsimp only
    split <;> exact ⟨rfl, rfl, id⟩
  · exact ⟨handler, hh, .refl _⟩

theorem follows_dropSenders (hs : List HandlerId) (hh : handlers h = some handler) :
    ∃ handler', dropSenders handlers hs h = some handler' ∧ Follows handler' handler := by
  unfold dropSenders
  split
  · rw [hh]
    exact ⟨_, rfl, rfl, rfl, id⟩
  · exact ⟨handler, hh, .refl _⟩

theorem Step.follows {s s' : Desk} {a : Action} {event : Option Event} (hst : Step s a event s')
    (hh : s.handlers h = some handler) :
    ∃ handler', s'.handlers h = some handler' ∧ Follows handler' handler := by
  cases hst with
  | connect hnone =>
    refine ⟨handler, (Function.update_of_ne ?_ _ _).trans hh, .refl _⟩
    rintro rfl
    simp [hnone] at hh
  | enqueue hh₀ | enqueueFails hh₀ | decisionLost hh₀ | elapse hh₀ | dropReceiver hh₀
  | download hh₀ | acceptFails hh₀ =>
    exact follows_update hh₀ ⟨rfl, rfl, fun _ => ⟨nofun, nofun⟩⟩ hh
  | @decide _ _ decision hh₀ =>
    refine follows_update hh₀ ⟨rfl, rfl, fun _ => ?_⟩ hh
    cases decision <;> exact ⟨nofun, nofun⟩
  | overflow | displace => exact follows_dropSenders _ hh
  | takeExpired | send => exact follows_deliver _ hh
  | _ => exact ⟨handler, hh, .refl _⟩

section senders
variable {s s' : Desk} {log : List Event} {id : Nat} {cause : Retirement} {old : PendingOffer}

theorem assigned_mem_trail : .assigned id h ∈ senderTrail log h ↔ .assigned id h ∈ log := by
  simp [List.mem_filter, Event.ofSender]

theorem senderTrail_retired_self :
    senderTrail (.retired id h cause :: log) h = .retired id h cause :: senderTrail log h := by
  simp [senderTrail, Event.ofSender]

theorem senderTrail_retired_of_ne (hne : h ≠ h₀) :
    senderTrail (.retired id h₀ cause :: log) h = senderTrail log h := by
  simp [senderTrail, Event.ofSender, hne.symm]

theorem senderTrail_assigned_self :
    senderTrail (.assigned id h :: log) h = .assigned id h :: senderTrail log h := by
  simp [senderTrail, Event.ofSender]

theorem senderTrail_assigned_of_ne (hne : h ≠ h₀) :
    senderTrail (.assigned id h₀ :: log) h = senderTrail log h := by
  simp [senderTrail, Event.ofSender, hne.symm]

theorem SendersTracked.start : SendersTracked Desk.start [] := by
  constructor <;> simp [Desk.start]

/-- Steps that move no sender. -/
theorem SendersTracked.frame (h : SendersTracked s log) {log' : List Event}
    (htrail : ∀ x, senderTrail log' x = senderTrail log x)
    (hhandlers : ∀ {x handler}, s.handlers x = some handler →
      ∃ handler', s'.handlers x = some handler' ∧ Follows handler' handler)
    (hqueue : s'.queue.Sublist s.queue)
    (hstoring : ∀ {p}, s'.forwarder = .storing p → s.forwarder = .storing p)
    (hpending : ∀ {p}, s'.pending = some p → s.pending = some p ∨ s.forwarder = .storing p)
    (htaken : ∀ {c p d}, s'.calls c = .taken p d → s.calls c = .taken p d)
    (hnext : s'.nextId = s.nextId) : SendersTracked s' log' := by
  have hassigned : ∀ {id x}, Event.assigned id x ∈ log' → Event.assigned id x ∈ log := by
    intro id x hmem
    rwa [← assigned_mem_trail, htrail, assigned_mem_trail] at hmem
  refine {
    born := fun hne => ?_
    shape := fun x => htrail x ▸ h.shape x
    queued := fun hmem => ?_
    nodup := h.nodup.sublist (hqueue.map _)
    storing := fun hf => htrail _ ▸ h.storing (hstoring hf)
    pending := fun hp => htrail _ ▸ (hpending hp).elim h.pending h.storing
    taken := fun hc => htrail _ ▸ h.taken (htaken hc)
    numbers := fun hmem => hnext ▸ h.numbers (hassigned hmem)
    unique := fun hmem hmem' => h.unique (hassigned hmem) (hassigned hmem') }
  · obtain ⟨handler, hh, henqueued⟩ := h.born (htrail _ ▸ hne)
    obtain ⟨handler', hh', hfollows⟩ := hhandlers hh
    exact ⟨handler', hh', hfollows.enqueued henqueued⟩
  · obtain ⟨hnil, handler, hh, henqueued, hoffer⟩ := h.queued (hqueue.subset hmem)
    obtain ⟨handler', hh', hfollows⟩ := hhandlers hh
    exact ⟨htrail _ ▸ hnil, handler', hh', hfollows.enqueued henqueued, hfollows.offer.trans hoffer⟩

/-- The slot is emptied, and perhaps filled again: its sender is retired. -/
theorem SendersTracked.retire (h : SendersTracked s log) (hnumbered : s.Numbered)
    (hold : s.pending = some old)
    (hhandlers : ∀ {x handler}, s.handlers x = some handler →
      ∃ handler', s'.handlers x = some handler' ∧ Follows handler' handler)
    (hqueue : s'.queue = s.queue)
    (hstoring : ∀ {p}, s'.forwarder = .storing p → s.forwarder = .storing p)
    (hpending : ∀ {p}, s'.pending = some p → s.forwarder = .storing p)
    (htaken : ∀ {c p d}, s'.calls c = .taken p d →
      s.calls c = .taken p d ∨ p = old ∧ cause = .call c)
    (hnext : s'.nextId = s.nextId) :
    SendersTracked s' (.retired old.view.id old.decision cause :: log) := by
  have htrail := h.pending hold
  -- two numbers for one sender would have to be equal, and the next one is larger
  have hother : ∀ {p}, s.forwarder = .storing p → p.decision ≠ old.decision := by
    intro p hf heq
    have hp := h.storing hf
    rw [heq, htrail] at hp
    have hid := (hnumbered.storing hf)
    have hid' := hnumbered.pending hold
    simp only [List.cons.injEq, Event.assigned.injEq, and_true] at hp
    omega
  have hassigned : ∀ {id x}, Event.assigned id x ∈ .retired old.view.id old.decision cause :: log →
      Event.assigned id x ∈ log := by simp
  refine {
    born := fun {x} hne => ?_
    shape := fun x => ?_
    queued := fun {request} hmem => ?_
    nodup := hqueue ▸ h.nodup
    storing := fun hf => ?_
    pending := fun hp => ?_
    taken := fun {c p d} hc => ?_
    numbers := fun hmem => hnext ▸ h.numbers (hassigned hmem)
    unique := fun hmem hmem' => h.unique (hassigned hmem) (hassigned hmem') }
  · have hborn : senderTrail log x ≠ [] := by
      by_cases hx : x = old.decision
      · subst hx
        simp [htrail]
      · rwa [senderTrail_retired_of_ne hx] at hne
    obtain ⟨handler, hh, henqueued⟩ := h.born hborn
    obtain ⟨handler', hh', hfollows⟩ := hhandlers hh
    exact ⟨handler', hh', hfollows.enqueued henqueued⟩
  · by_cases hx : x = old.decision
    · subst hx
      exact .inr ⟨old.view.id, .inr ⟨cause, by rw [senderTrail_retired_self, htrail]⟩⟩
    · rw [senderTrail_retired_of_ne hx]
      exact h.shape x
  · rw [hqueue] at hmem
    obtain ⟨hnil, handler, hh, henqueued, hoffer⟩ := h.queued hmem
    have hne : request.decision ≠ old.decision := by
      intro heq
      simp [heq, htrail] at hnil
    obtain ⟨handler', hh', hfollows⟩ := hhandlers hh
    rw [senderTrail_retired_of_ne hne]
    exact ⟨hnil, handler', hh', hfollows.enqueued henqueued, hfollows.offer.trans hoffer⟩
  · have hf := hstoring hf
    rw [senderTrail_retired_of_ne (hother hf)]
    exact h.storing hf
  · have hf := hpending hp
    rw [senderTrail_retired_of_ne (hother hf)]
    exact h.storing hf
  · rcases htaken hc with hc | ⟨rfl, rfl⟩
    · have hne : p.decision ≠ old.decision := by
        intro heq
        have hp := h.taken hc
        simp [heq, htrail] at hp
      rw [senderTrail_retired_of_ne hne]
      exact h.taken hc
    · rw [senderTrail_retired_self, htrail]

/-- A call that is replaced by one that holds no offer. -/
theorem taken_update {calls : CallId → Call} {c c' : CallId} {call : Call} {p : PendingOffer}
    {d : OfferDecision} (hcall : ∀ p d, call ≠ .taken p d)
    (hc : Function.update calls c call c' = .taken p d) : calls c' = .taken p d := by
  by_cases heq : c' = c
  · subst heq
    rw [Function.update_self] at hc
    exact absurd hc (hcall p d)
  · rwa [Function.update_of_ne heq] at hc

/-- A handler queues its offer. -/
theorem SendersTracked.enqueue (h : SendersTracked s log) {x : HandlerId} {handler : Handler}
    (hh : s.handlers x = some handler) (hphase : handler.phase = .offering) :
    SendersTracked { s.setHandler x { handler with phase := .waiting } with
      queue := s.queue ++ [⟨handler.offer, x⟩] } log := by
  -- `x` has not been in the queue yet: a sender with a trail, or in the queue, is past it
  have hnil : senderTrail log x = [] := by
    by_contra hne
    obtain ⟨handler', hh', henqueued⟩ := h.born hne
    rw [hh] at hh'
    cases hh'
    exact henqueued.2 hphase
  have hfresh : x ∉ s.queue.map OfferRequest.decision := by
    intro hmem
    obtain ⟨request, hmem, hx⟩ := List.mem_map.mp hmem
    obtain ⟨-, handler', hh', henqueued, -⟩ := h.queued hmem
    rw [hx, hh] at hh'
    cases hh'
    exact henqueued.2 hphase
  have hframe : SendersTracked (s.setHandler x { handler with phase := .waiting }) log :=
    h.frame (fun _ => rfl) (follows_update hh ⟨rfl, rfl, fun _ => ⟨nofun, nofun⟩⟩) (.refl _) id
      .inl id rfl
  refine { hframe with queued := ?_, nodup := ?_ }
  · intro request hmem
    rcases List.mem_append.mp hmem with hmem | hmem
    · exact hframe.queued hmem
    · cases List.mem_singleton.mp hmem
      exact ⟨hnil, _, Function.update_self .., ⟨nofun, nofun⟩, rfl⟩
  · simp only [List.map_append, List.map_cons, List.map_nil]
    refine List.nodup_append.mpr ⟨h.nodup, by simp, fun y hy z hz => ?_⟩
    rw [List.mem_singleton.mp hz]
    exact ne_of_mem_of_not_mem hy hfresh

/-- The first offer of the queue gets its number. -/
theorem SendersTracked.recv (h : SendersTracked s log) {request : OfferRequest}
    {queue : List OfferRequest} (hqueue : s.queue = request :: queue)
    (peers : List (String × EndpointAddr)) :
    SendersTracked
      { s with
        queue
        nextId := s.nextId + 1
        forwarder := .storing
          ⟨IncomingOffer.new (s.nextId + 1) peers request.offer, request.decision⟩ }
      (.assigned (s.nextId + 1) request.decision :: log) := by
  obtain ⟨hnil, handler, hh, henqueued, -⟩ := h.queued (hqueue ▸ List.mem_cons_self)
  have hnodup := h.nodup
  rw [hqueue, List.map_cons, List.nodup_cons] at hnodup
  -- the number is new, and so is the sender: its trail was empty in the queue
  have hfresh : ∀ {x}, Event.assigned (s.nextId + 1) x ∉ log := by
    intro x hmem
    have := h.numbers hmem
    omega
  have hself : senderTrail (.assigned (s.nextId + 1) request.decision :: log) request.decision =
      [.assigned (s.nextId + 1) request.decision] := by
    rw [senderTrail_assigned_self, hnil]
  have hother : ∀ {x}, x ≠ request.decision →
      senderTrail (.assigned (s.nextId + 1) request.decision :: log) x = senderTrail log x :=
    senderTrail_assigned_of_ne
  have hne : ∀ {x}, senderTrail log x ≠ [] → x ≠ request.decision := by
    rintro x hx rfl
    exact hx hnil
  refine {
    born := fun {x} hx => ?_
    shape := fun x => ?_
    queued := fun {request'} hmem => ?_
    nodup := hnodup.2
    storing := ?_
    pending := fun {p} hp => ?_
    taken := fun {c p d} hc => ?_
    numbers := ?_
    unique := ?_ }
  · by_cases heq : x = request.decision
    · subst heq
      exact ⟨handler, hh, henqueued⟩
    · exact h.born (by rwa [← senderTrail_assigned_of_ne heq])
  · by_cases heq : x = request.decision
    · subst heq
      exact .inr ⟨_, .inl hself⟩
    · exact hother heq ▸ h.shape x
  · have hx : request'.decision ≠ request.decision := by
      intro heq
      exact hnodup.1 (heq ▸ List.mem_map_of_mem hmem)
    have hold := h.queued (hqueue ▸ List.mem_cons_of_mem _ hmem)
    exact hother hx ▸ hold
  · rintro _ ⟨⟩
    exact hself
  · exact (senderTrail_assigned_of_ne (hne (by simp [h.pending hp]))).trans (h.pending hp)
  · exact (senderTrail_assigned_of_ne (hne (by simp [h.taken hc]))).trans (h.taken hc)
  · intro id x hmem
    rcases List.mem_cons.mp hmem with heq | hmem
    · cases heq
      exact Nat.le_refl _
    · exact Nat.le_succ_of_le (h.numbers hmem)
  · intro id x x' hmem hmem'
    rcases List.mem_cons.mp hmem with heq | hmem <;>
      rcases List.mem_cons.mp hmem' with heq' | hmem'
    · cases heq
      cases heq'
      rfl
    · cases heq
      exact absurd hmem' hfresh
    · cases heq'
      exact absurd hmem hfresh
    · exact h.unique hmem hmem'

theorem SendersTracked.step (h : SendersTracked s log) (hnumbered : s.Numbered) {a : Action}
    {event : Option Event} (hst : Step s a event s') :
    SendersTracked s' (event.toList ++ log) := by
  have hfollows : ∀ {x handler}, s.handlers x = some handler →
      ∃ handler', s'.handlers x = some handler' ∧ Follows handler' handler := hst.follows
  cases hst with
  | enqueue hh hphase _ _ => exact h.enqueue hh hphase
  | recv _ hqueue _ => exact h.recv hqueue _
  | overflow => exact h.frame (fun _ => rfl) hfollows (List.nil_sublist _) nofun .inl id rfl
  | store hforwarder =>
    exact h.frame (fun _ => rfl) hfollows (.refl _) nofun
      (fun hp => .inr (Option.some.inj hp ▸ hforwarder)) id rfl
  | displace hforwarder hold =>
    exact h.retire hnumbered hold hfollows rfl nofun
      (fun hp => Option.some.inj hp ▸ hforwarder) .inl rfl
  | takeExpired hforwarder hold =>
    exact h.retire hnumbered hold hfollows rfl nofun nofun .inl rfl
  | @take c decision old hc hold =>
    refine h.retire hnumbered hold hfollows rfl id nofun (fun {c' p d} hc' => ?_) rfl
    by_cases heq : c' = c
    · subst heq
      have hself := (Function.update_self ..).symm.trans hc'
      cases hself
      exact .inr ⟨rfl, rfl⟩
    · exact .inl ((Function.update_of_ne heq _ _).symm.trans hc')
  | respond | respondFails | takeFails | send | notify =>
    exact h.frame (fun _ => rfl) hfollows (.refl _) id .inl (taken_update nofun) rfl
  | emitIncoming | enterWait | wake | expire | skipExpired | emitExpired =>
    exact h.frame (fun _ => rfl) hfollows (.refl _) nofun .inl id rfl
  | _ => exact h.frame (fun _ => rfl) hfollows (.refl _) id .inl id rfl

end senders

/-! ## What the calls have done -/

/-- The trail of a call, by where it is: it resolves at most one decision, and after that
removes at most one offer, the one it was called for. -/
def CallStory (c : CallId) : Call → List Event → Prop
  | .none, trail => trail = []
  | .resolved id d, trail => trail = [.resolved c id d]
  | .taken p d, trail =>
    trail = [.retired p.view.id p.decision (.call c), .resolved c p.view.id d]
  | .sent id _, trail => ∃ h d, trail = [.retired id h (.call c), .resolved c id d]
  | .returned id _, trail => ∃ h d, trail = [.retired id h (.call c), .resolved c id d]
  | .failed _, trail => trail = [] ∨ ∃ id d, trail = [.resolved c id d]

section calls
variable {s s' : Desk} {log : List Event}

/-- A step of call `c` leaves the other calls and their trails as they were. -/
theorem callStory_update (hcalls : ∀ c, CallStory c (s.calls c) (callTrail log c)) {c : CallId}
    {call : Call} {log' : List Event} (hself : CallStory c call (callTrail log' c))
    (hother : ∀ c', c' ≠ c → callTrail log' c' = callTrail log c') (c' : CallId) :
    CallStory c' (Function.update s.calls c call c') (callTrail log' c') := by
  by_cases heq : c' = c
  · subst heq
    rwa [Function.update_self]
  · rw [Function.update_of_ne heq, hother c' heq]
    exact hcalls c'

theorem callStory_step (hcalls : ∀ c, CallStory c (s.calls c) (callTrail log c)) {a : Action}
    {event : Option Event} (hst : Step s a event s') (c : CallId) :
    CallStory c (s'.calls c) (callTrail (event.toList ++ log) c) := by
  have hstory : ∀ {c call}, s.calls c = call → CallStory c call (callTrail log c) :=
    fun hc => hc ▸ hcalls _
  cases hst with
  | respond hc _ =>
    refine callStory_update hcalls ?_ (fun c' hne => ?_) c
    · have htrail := hstory hc
      simp_all [CallStory, callTrail, Event.ofCall]
    · simp [callTrail, Event.ofCall, hne.symm]
  | respondFails hc _ =>
    refine callStory_update hcalls ?_ (fun _ _ => rfl) c
    exact Or.inl (hstory hc)
  | take hc _ =>
    refine callStory_update hcalls ?_ (fun c' hne => ?_) c
    · have htrail := hstory hc
      simp_all [CallStory, callTrail, Event.ofCall]
    · simp [callTrail, Event.ofCall, hne.symm]
  | takeFails hc _ =>
    refine callStory_update hcalls ?_ (fun _ _ => rfl) c
    exact Or.inr ⟨_, _, hstory hc⟩
  | send hc =>
    refine callStory_update hcalls ?_ (fun _ _ => rfl) c
    exact ⟨_, _, hstory hc⟩
  | notify hc =>
    have htrail := hstory hc
    refine callStory_update hcalls ?_ (fun _ _ => rfl) c
    exact htrail
  | _ => exact hcalls c

end calls

/-! ## What the handlers have done -/

/-- The trail of a handler, by where it is: it takes at most one decision or gives up, and
downloads at most once, after an accept. -/
def HandlerStory (h : HandlerId) (handler : Handler) (trail : List Event) : Prop :=
  let connected := Event.connected h handler.remote handler.offer
  match handler.phase with
  | .refused | .offering | .waiting => trail = [connected]
  | .elapsed => trail = [.gaveUp h, connected]
  | .accepted dir => trail = [.decided h (.accept dir), connected]
  | .downloading dir =>
    trail = [.download h dir handler.offer, .decided h (.accept dir), connected]
  | .declining => trail = [.gaveUp h, connected] ∨ trail = [.decided h .decline, connected]
  | .failed => trail = [connected] ∨ ∃ dir, trail = [.decided h (.accept dir), connected]

/-- What is known of a handler: its trail, and that its ticket names its peer. -/
structure HandlersTracked (s : Desk) (log : List Event) : Prop where
  absent : ∀ {h}, s.handlers h = none → handlerTrail log h = []
  story : ∀ {h handler}, s.handlers h = some handler →
    HandlerStory h handler (handlerTrail log h)
  peer : ∀ {h handler}, s.handlers h = some handler → handler.phase ≠ .refused →
    handler.offer.ticket.addr.id = handler.remote

section handlers
variable {s s' : Desk} {log : List Event}

theorem HandlersTracked.start : HandlersTracked Desk.start [] :=
  ⟨fun _ => rfl, nofun, nofun⟩

/-- Nothing but the slots of the handlers changes. -/
def SameHandlers (handlers' handlers : HandlerId → Option Handler) : Prop :=
  ∀ h, (handlers' h = none → handlers h = none) ∧
    ∀ handler', handlers' h = some handler' → ∃ handler, handlers h = some handler ∧
      handler'.phase = handler.phase ∧ handler'.remote = handler.remote ∧
      handler'.offer = handler.offer

theorem SameHandlers.refl (handlers : HandlerId → Option Handler) :
    SameHandlers handlers handlers :=
  fun _ => ⟨id, fun handler hh => ⟨handler, hh, rfl, rfl, rfl⟩⟩

theorem sameHandlers_deliver (h₀ : HandlerId) (d : OfferDecision) :
    SameHandlers (deliver handlers h₀ d) handlers := by
  intro h
  unfold deliver
  split
  · rename_i heq
    subst heq
    cases hh : handlers h with
    | none => simp
    | some handler =>
      simp only [Option.map_some, reduceCtorEq, false_implies, true_and, Option.some.injEq]
      rintro _ rfl
      split <;> exact ⟨handler, rfl, rfl, rfl, rfl⟩
  · exact SameHandlers.refl handlers h

theorem sameHandlers_dropSenders (hs : List HandlerId) :
    SameHandlers (dropSenders handlers hs) handlers := by
  intro h
  unfold dropSenders
  split
  · cases hh : handlers h with
    | none => simp
    | some handler =>
      simp only [Option.map_some, reduceCtorEq, false_implies, true_and, Option.some.injEq]
      rintro _ rfl
      exact ⟨handler, rfl, rfl, rfl, rfl⟩
  · exact SameHandlers.refl handlers h

theorem HandlersTracked.same (hs : HandlersTracked s log) {log' : List Event}
    (hsame : SameHandlers s'.handlers s.handlers)
    (htrail : ∀ h, handlerTrail log' h = handlerTrail log h) : HandlersTracked s' log' := by
  refine ⟨fun {h} hh => ?_, fun {h handler'} hh' => ?_, fun {h handler'} hh' hphase' => ?_⟩
  · rw [htrail]
    exact hs.absent ((hsame h).1 hh)
  · obtain ⟨handler, hh, hphase, hremote, hoffer⟩ := (hsame h).2 handler' hh'
    rw [htrail, HandlerStory, hphase, hremote, hoffer]
    exact hs.story hh
  · obtain ⟨handler, hh, hphase, hremote, hoffer⟩ := (hsame h).2 handler' hh'
    rw [hremote, hoffer]
    exact hs.peer hh (hphase ▸ hphase')

/-- A step of handler `h` leaves the other handlers and their trails as they were. -/
theorem HandlersTracked.update (hs : HandlersTracked s log) {h : HandlerId} {handler : Handler}
    {log' : List Event} (hupdate : s'.handlers = Function.update s.handlers h (some handler))
    (hstory : HandlerStory h handler (handlerTrail log' h))
    (hpeer : handler.phase ≠ .refused → handler.offer.ticket.addr.id = handler.remote)
    (hother : ∀ h', h' ≠ h → handlerTrail log' h' = handlerTrail log h') :
    HandlersTracked s' log' := by
  refine ⟨fun {h'} hh => ?_, fun {h' handler'} hh => ?_, fun {h' handler'} hh hphase => ?_⟩ <;>
    rw [hupdate] at hh <;> by_cases heq : h' = h
  · subst heq
    simp at hh
  · rw [Function.update_of_ne heq] at hh
    rw [hother h' heq]
    exact hs.absent hh
  · subst heq
    rw [Function.update_self] at hh
    cases hh
    exact hstory
  · rw [Function.update_of_ne heq] at hh
    rw [hother h' heq]
    exact hs.story hh
  · subst heq
    rw [Function.update_self] at hh
    cases hh
    exact hpeer hphase
  · rw [Function.update_of_ne heq] at hh
    exact hs.peer hh hphase

theorem HandlersTracked.step (hs : HandlersTracked s log) {a : Action} {event : Option Event}
    (hst : Step s a event s') : HandlersTracked s' (event.toList ++ log) := by
  cases hst with
  | @connect h remote offer hnone =>
    refine hs.update rfl ?_ ?_ (fun h' hne => ?_)
    · have htrail := hs.absent hnone
      dsimp only [HandlerStory]
      split_ifs <;> simp_all [handlerTrail, Event.ofHandler]
    · simp
    · simp [handlerTrail, Event.ofHandler, hne.symm]
  | enqueue hh hphase | enqueueFails hh hphase | acceptFails hh hphase | dropReceiver hh hphase =>
    have hstory := hs.story hh
    have hpeer := hs.peer hh (by simp [hphase])
    -- no event: the phases before and after have one story
    refine hs.update rfl ?_ (fun _ => hpeer) (fun _ _ => rfl)
    simp_all [HandlerStory]
  | decide hh hphase _ =>
    have hstory := hs.story hh
    have hpeer := hs.peer hh (by simp [hphase])
    refine hs.update rfl ?_ (fun _ => hpeer) (fun h' hne => ?_)
    · rename_i decision _
      cases decision <;> simp_all [HandlerStory, afterDecision, handlerTrail, Event.ofHandler]
    · simp [handlerTrail, Event.ofHandler, hne.symm]
  | decisionLost hh hphase | elapse hh hphase | download hh hphase =>
    have hstory := hs.story hh
    have hpeer := hs.peer hh (by simp [hphase])
    refine hs.update rfl ?_ (fun _ => hpeer) (fun h' hne => ?_)
    · simp_all [HandlerStory, handlerTrail, Event.ofHandler]
    · simp [handlerTrail, Event.ofHandler, hne.symm]
  | takeExpired | send => exact hs.same (sameHandlers_deliver _ _) (fun _ => rfl)
  | overflow | displace => exact hs.same (sameHandlers_dropSenders _) (fun _ => rfl)
  | _ => exact hs.same (.refl _) (fun _ => rfl)

end handlers

/-! ## Whose decision a handler has -/

/-- The accept of handler `h` was decided by a call: it retired the offer of `h`, and had
resolved to the directory. -/
def Authorized (log : List Event) (h : HandlerId) (dir : String) : Prop :=
  ∃ c id, senderTrail log h = [.retired id h (.call c), .assigned id h] ∧
    .resolved c id (.accept dir) ∈ log

/-- Every accept a handler holds or has taken is authorized. -/
structure AcceptsTracked (s : Desk) (log : List Event) : Prop where
  slot : ∀ {h handler dir}, s.handlers h = some handler → handler.slot = some (.accept dir) →
    Authorized log h dir
  decided : ∀ {h dir}, .decided h (.accept dir) ∈ log → Authorized log h dir

section accepts
variable {s s' : Desk} {log : List Event} {dir : String}

/-- A retired sender's trail is complete. -/
theorem Authorized.append {event : Option Event} (ha : Authorized log h dir)
    (hsenders : SendersTracked s' (event.toList ++ log)) :
    Authorized (event.toList ++ log) h dir := by
  obtain ⟨c, id, htrail, hresolved⟩ := ha
  refine ⟨c, id, ?_, List.mem_append_right _ hresolved⟩
  have hshape := hsenders.shape h
  rw [senderTrail, List.filter_append] at hshape ⊢
  rw [show log.filter (Event.ofSender h) = _ from htrail] at hshape ⊢
  cases hnew : event.toList.filter (Event.ofSender h) with
  | nil => rfl
  | cons e rest =>
    rw [hnew] at hshape
    have hlength :
        (e :: rest ++ [Event.retired id h (.call c), Event.assigned id h]).length ≤ 2 := by
      rcases hshape with hnil | ⟨_, hone | ⟨_, htwo⟩⟩
      · simp [hnil]
      · simp [hone]
      · simp [htwo]
    simp at hlength

theorem slot_deliver {h₀ : HandlerId} {d d' : OfferDecision} {handler' : Handler}
    (hh : deliver handlers h₀ d h = some handler') (hslot : handler'.slot = some d') :
    (∃ handler, handlers h = some handler ∧ handler.slot = some d') ∨ h = h₀ ∧ d' = d := by
  unfold deliver at hh
  split at hh
  · rename_i heq
    subst heq
    obtain ⟨handler, hhandler, rfl⟩ := Option.map_eq_some_iff.mp hh
    split at hslot
    · exact .inr ⟨rfl, (Option.some.inj hslot).symm⟩
    · exact .inl ⟨handler, hhandler, hslot⟩
  · exact .inl ⟨handler', hh, hslot⟩

theorem slot_dropSenders {hs : List HandlerId} {handler' : Handler}
    (hh : dropSenders handlers hs h = some handler') :
    ∃ handler, handlers h = some handler ∧ handler'.slot = handler.slot := by
  unfold dropSenders at hh
  split at hh
  · obtain ⟨handler, hhandler, rfl⟩ := Option.map_eq_some_iff.mp hh
    exact ⟨handler, hhandler, rfl⟩
  · exact ⟨handler', hh, rfl⟩

/-- Steps after which every slot holds what some slot held. -/
theorem AcceptsTracked.of_slots (ha : AcceptsTracked s log) {event : Option Event}
    (hsenders : SendersTracked s' (event.toList ++ log))
    (hslots : ∀ {h handler'}, s'.handlers h = some handler' → handler'.slot = none ∨
      ∃ handler, s.handlers h = some handler ∧ handler'.slot = handler.slot)
    (hdecided : ∀ {h dir}, .decided h (.accept dir) ∈ event.toList → Authorized log h dir) :
    AcceptsTracked s' (event.toList ++ log) := by
  constructor
  · intro h handler' dir hh' hslot
    rcases hslots hh' with hnone | ⟨handler, hh, heq⟩
    · simp [hnone] at hslot
    · exact (ha.slot hh (heq ▸ hslot)).append hsenders
  · intro h dir hmem
    rcases List.mem_append.mp hmem with hmem | hmem
    · exact (hdecided hmem).append hsenders
    · exact (ha.decided hmem).append hsenders

theorem slot_update {handler' : Handler}
    (hslot : handler₁.slot = none ∨
      ∃ handler₀, handlers h₀ = some handler₀ ∧ handler₁.slot = handler₀.slot)
    (hh' : Function.update handlers h₀ (some handler₁) h = some handler') :
    handler'.slot = none ∨ ∃ handler, handlers h = some handler ∧ handler'.slot = handler.slot := by
  by_cases heq : h = h₀
  · subst heq
    rw [Function.update_self] at hh'
    cases hh'
    exact hslot
  · rw [Function.update_of_ne heq] at hh'
    exact .inr ⟨handler', hh', rfl⟩

theorem AcceptsTracked.step (ha : AcceptsTracked s log) (hs : SendersTracked s log)
    (hcalls : ∀ c, CallStory c (s.calls c) (callTrail log c)) {a : Action} {event : Option Event}
    (hst : Step s a event s') (hsenders : SendersTracked s' (event.toList ++ log)) :
    AcceptsTracked s' (event.toList ++ log) := by
  cases hst with
  | connect => exact ha.of_slots hsenders (slot_update (.inl rfl)) (by simp)
  | enqueue hh | enqueueFails hh | decisionLost hh | elapse hh | dropReceiver hh | download hh
  | acceptFails hh =>
    exact ha.of_slots hsenders (slot_update (.inr ⟨_, hh, rfl⟩)) (by simp)
  | decide hh hphase hslot =>
    refine ha.of_slots hsenders (slot_update (.inl rfl)) (fun hmem => ?_)
    cases List.mem_singleton.mp hmem
    exact ha.slot hh hslot
  | overflow | displace =>
    exact ha.of_slots hsenders (fun hh => .inr (slot_dropSenders hh)) (by simp)
  | takeExpired =>
    refine ⟨fun hh hslot => ?_, fun hmem => ?_⟩
    · rcases slot_deliver hh hslot with ⟨handler, hh, hslot⟩ | ⟨-, heq⟩
      · exact (ha.slot hh hslot).append hsenders
      · cases heq
    · exact (ha.decided (by simpa using hmem)).append hsenders
  | @send c d p hc =>
    refine ⟨fun {h handler dir} hh hslot => ?_, fun hmem => ha.decided hmem⟩
    rcases slot_deliver hh hslot with ⟨handler, hh, hslot⟩ | ⟨rfl, rfl⟩
    · exact ha.slot hh hslot
    -- the accept just delivered is the one call `c` was resolved to
    · have hstory := hcalls c
      rw [hc] at hstory
      have hresolved : Event.resolved c p.view.id (.accept dir) ∈ callTrail log c := by
        rw [show callTrail log c = _ from hstory]
        simp
      exact ⟨c, p.view.id, hs.taken hc, (List.mem_filter.mp hresolved).1⟩
  | _ => exact ha.of_slots hsenders (fun hh => .inr ⟨_, hh, rfl⟩) (by simp)

end accepts

/-! ## Unspent senders -/

/-- Until its sender is retired, or lost with the forwarder, a handler has received nothing. -/
def Unspent (s : Desk) (log : List Event) : Prop :=
  s.forwarder ≠ .panicked → ∀ h handler, s.handlers h = some handler →
    (∀ id cause, .retired id h cause ∉ log) → handler.slot = none ∧ handler.senderDropped = false

section unspent
variable {s s' : Desk} {log : List Event}

/-- Steps after which every unretired handler is new or has received no more than before. -/
theorem Unspent.of_handlers (hu : Unspent s log) {event : Option Event}
    (hforwarder : s'.forwarder ≠ .panicked → s.forwarder ≠ .panicked)
    (hhandlers : ∀ {h handler'}, s'.handlers h = some handler' →
      (∀ id cause, .retired id h cause ∉ event.toList ++ log) →
      (handler'.slot = none ∧ handler'.senderDropped = false) ∨
      ∃ handler, s.handlers h = some handler ∧
        (handler'.slot = none ∨ handler'.slot = handler.slot) ∧
        handler'.senderDropped = handler.senderDropped) :
    Unspent s' (event.toList ++ log) := by
  intro hf h handler' hh' hnot
  rcases hhandlers hh' hnot with hfresh | ⟨handler, hh, hslot, hdropped⟩
  · exact hfresh
  · obtain ⟨hnone, hfalse⟩ := hu (hforwarder hf) h handler hh
      (fun id cause hmem => hnot id cause (List.mem_append_right _ hmem))
    exact ⟨hslot.elim id (fun heq => heq.trans hnone), hdropped.trans hfalse⟩

theorem spent_update {handler' : Handler}
    (hh' : Function.update handlers h₀ (some handler₁) h = some handler')
    (hnew : (handler₁.slot = none ∧ handler₁.senderDropped = false) ∨
      ∃ handler, handlers h₀ = some handler ∧
        (handler₁.slot = none ∨ handler₁.slot = handler.slot) ∧
        handler₁.senderDropped = handler.senderDropped) :
    (handler'.slot = none ∧ handler'.senderDropped = false) ∨
      ∃ handler, handlers h = some handler ∧
        (handler'.slot = none ∨ handler'.slot = handler.slot) ∧
        handler'.senderDropped = handler.senderDropped := by
  by_cases heq : h = h₀
  · subst heq
    rw [Function.update_self] at hh'
    cases hh'
    exact hnew
  · rw [Function.update_of_ne heq] at hh'
    exact .inr ⟨handler', hh', .inr rfl, rfl⟩

theorem deliver_of_ne {d : OfferDecision} (hne : h ≠ h₀) :
    deliver handlers h₀ d h = handlers h := by
  simp [deliver, hne]

theorem Unspent.step (hu : Unspent s log) (hs : SendersTracked s log) {a : Action}
    {event : Option Event} (hst : Step s a event s') : Unspent s' (event.toList ++ log) := by
  cases hst with
  | connect => exact hu.of_handlers id (fun hh' _ => spent_update hh' (.inl ⟨rfl, rfl⟩))
  | enqueue hh | enqueueFails hh | decisionLost hh | elapse hh | dropReceiver hh | download hh
  | acceptFails hh =>
    exact hu.of_handlers id (fun hh' _ => spent_update hh' (.inr ⟨_, hh, .inr rfl, rfl⟩))
  | decide hh =>
    exact hu.of_handlers id (fun hh' _ => spent_update hh' (.inr ⟨_, hh, .inl rfl, rfl⟩))
  | overflow => exact fun hf => absurd rfl hf
  | @displace pending old hforwarder hold =>
    refine hu.of_handlers (fun _ => by simp [hforwarder]) (fun {h handler'} hh' hnot => ?_)
    have hne : h ∉ [old.decision] := by
      intro hmem
      cases List.mem_singleton.mp hmem
      exact hnot _ _ List.mem_cons_self
    have hsame : dropSenders s.handlers [old.decision] h = s.handlers h := if_neg hne
    exact .inr ⟨handler', hsame.symm.trans hh', .inr rfl, rfl⟩
  | @takeExpired id old hforwarder hold =>
    refine hu.of_handlers (fun _ => by simp [hforwarder]) (fun {h handler'} hh' hnot => ?_)
    have hne : h ≠ old.decision := by
      rintro rfl
      exact hnot _ _ List.mem_cons_self
    exact .inr ⟨handler', (deliver_of_ne hne).symm.trans hh', .inr rfl, rfl⟩
  | @send c d p hc =>
    refine hu.of_handlers id (fun {h handler'} hh' hnot => ?_)
    -- the call that sends has retired its offer already, so `h` is another handler
    have hne : h ≠ p.decision := by
      rintro rfl
      have hmem : .retired p.view.id p.decision (.call c) ∈ senderTrail log p.decision := by
        simp [hs.taken hc]
      exact hnot _ _ (List.mem_filter.mp hmem).1
    exact .inr ⟨handler', (deliver_of_ne hne).symm.trans hh', .inr rfl, rfl⟩
  | recv hforwarder | store hforwarder | emitIncoming hforwarder | enterWait hforwarder
  | wake hforwarder | expire hforwarder | skipExpired hforwarder | emitExpired hforwarder =>
    exact hu.of_handlers (fun _ => by simp [hforwarder]) (fun hh' _ => .inr ⟨_, hh', .inr rfl, rfl⟩)
  | _ => exact hu.of_handlers id (fun hh' _ => .inr ⟨_, hh', .inr rfl, rfl⟩)

end unspent

/-! ## All of it -/

/-- What a run and its log say of each other. -/
structure Tracked (l : Logged Desk Event) : Prop where
  numbered : l.state.Numbered
  senders : SendersTracked l.state l.log
  calls : ∀ c, CallStory c (l.state.calls c) (callTrail l.log c)
  handlers : HandlersTracked l.state l.log
  accepts : AcceptsTracked l.state l.log
  unspent : Unspent l.state l.log

theorem tracked {l : Logged Desk Event} (hl : logged.Reachable l) : Tracked l := by
  refine hl.invariant ?_ ?_
  · rintro ⟨s, log⟩ ⟨hs, hlog⟩
    cases hs
    cases hlog
    exact ⟨.start, .start, fun _ => rfl, .start, ⟨nofun, nofun⟩, nofun⟩
  · rintro l a ⟨s', log'⟩ - h - hst
    obtain ⟨hst, hlog⟩ := logged_step_spec hst
    cases hlog
    have hsenders := h.senders.step h.numbered hst
    exact ⟨h.numbered.step hst, hsenders, callStory_step h.calls hst, h.handlers.step hst,
      h.accepts.step h.senders h.calls hst hsenders, h.unspent.step h.senders hst⟩

/-! ## Held senders -/

/-- The sender of handler `h` is in the queue, with the forwarder, or in the slot. -/
def Held (s : Desk) (h : HandlerId) : Prop :=
  (∃ request ∈ s.queue, request.decision = h) ∨
    (∃ p, s.forwarder = .storing p ∧ p.decision = h) ∨ ∃ p, s.pending = some p ∧ p.decision = h

/-- A handler whose sender is held has put its offer in the queue and received nothing. -/
theorem held_handler {s : Desk} (hs : machine.Reachable s) (hpanicked : s.forwarder ≠ .panicked)
    (hheld : s.Held h) : ∃ handler, s.handlers h = some handler ∧ handler.enqueued ∧
      handler.slot = none ∧ handler.senderDropped = false := by
  obtain ⟨log, hl⟩ := hs.logged event
  have ht := tracked hl
  -- a held sender may have a number, but is not retired
  have htrail : senderTrail log h = [] ∨ ∃ id, senderTrail log h = [.assigned id h] := by
    rcases hheld with ⟨request, hmem, rfl⟩ | ⟨p, hf, rfl⟩ | ⟨p, hp, rfl⟩
    · exact .inl (ht.senders.queued hmem).1
    · exact .inr ⟨_, ht.senders.storing hf⟩
    · exact .inr ⟨_, ht.senders.pending hp⟩
  have hunretired : ∀ id cause, .retired id h cause ∉ log := by
    intro id cause hmem
    have hmem : .retired id h cause ∈ senderTrail log h := by
      simp [List.mem_filter, Event.ofSender, hmem]
    rcases htrail with htrail | ⟨id', htrail⟩ <;> simp [htrail] at hmem
  have henqueued : ∃ handler, s.handlers h = some handler ∧ handler.enqueued := by
    rcases hheld with ⟨request, hmem, rfl⟩ | ⟨p, hf, rfl⟩ | ⟨p, hp, rfl⟩
    · obtain ⟨-, handler, hh, henqueued, -⟩ := ht.senders.queued hmem
      exact ⟨handler, hh, henqueued⟩
    · exact ht.senders.born (by simp [ht.senders.storing hf])
    · exact ht.senders.born (by simp [ht.senders.pending hp])
  obtain ⟨handler, hh, henqueued⟩ := henqueued
  exact ⟨handler, hh, henqueued, ht.unspent hpanicked h handler hh hunretired⟩

end Desk
end IrohShare
