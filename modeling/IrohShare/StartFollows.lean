import IrohShare.PageStart

/-!
# What the page knows after its start

`start()` registers its listeners, asks for `initial_state`, and puts the response over what
it has heard in the meantime.  The page follows the process once nothing is on its way,
provided that the response was not outdated when it was processed.

Two conservation laws carry the proof (`Conserved`).  The last list on its way to the page,
or the page's own if there is none, is the list that is stored; and the events about offers
on their way, processed in their order, bring the offer the page knows to the one in the
slot.  A step of the process adds to what is on its way what it owes the page, a delivery
takes the oldest event off, and both keep the sum.  Nothing is missed before the response,
since the listeners come first; but only the response itself can make the laws true, and it
does exactly if it is not outdated (`conserved_complete_iff`).

What is on its way includes what a task is about to emit: the peer task between storing a
list and emitting it, `forward_offers` between a change of the slot and its event.
-/
namespace IrohShare
open Transition

/-! ## The offer announced last -/

/-- Events with an announcement bring everybody to the same offer; others leave everybody where
they are. -/
theorem lastAnnounced_eq_or (events : List PageEvent) :
    (∃ view, .incomingOffer view ∈ events ∧
      ∀ told, lastAnnounced events told = some view) ∨
    ((∀ view, .incomingOffer view ∉ events) ∧ ∀ told, lastAnnounced events told = told) := by
  induction events with
  | nil => exact .inr ⟨fun _ => List.not_mem_nil, fun _ => rfl⟩
  | cons event events ih =>
    cases event with
    | incomingOffer view =>
      rcases ih with ⟨last, hmem, hlast⟩ | ⟨hnone, hlast⟩
      · exact .inl ⟨last, List.mem_cons_of_mem _ hmem, fun _ => hlast _⟩
      · exact .inl ⟨view, List.mem_cons_self, fun _ => hlast _⟩
    | offerExpired id =>
      rcases ih with ⟨last, hmem, hlast⟩ | ⟨hnone, hlast⟩
      · exact .inl ⟨last, List.mem_cons_of_mem _ hmem, fun _ => hlast _⟩
      · refine .inr ⟨fun view hmem => ?_, fun _ => hlast _⟩
        rcases List.mem_cons.mp hmem with habs | hmem
        · cases habs
        · exact hnone view hmem

/-- The offer announced last stays, unless its own expiry comes. -/
theorem showAfter_eq_lastAnnounced {events : List PageEvent} {told : Option IncomingOffer}
    (h : ∀ offer, lastAnnounced events told = some offer → .offerExpired offer.id ∉ events) :
    showAfter events told = lastAnnounced events told := by
  induction events generalizing told with
  | nil => rfl
  | cons event events ih =>
    cases event with
    | incomingOffer view =>
      exact ih fun offer hoffer hmem => h offer hoffer (List.mem_cons_of_mem _ hmem)
    | offerExpired id =>
      have htail : ∀ offer, lastAnnounced events told = some offer →
          .offerExpired offer.id ∉ events :=
        fun offer hoffer hmem => h offer hoffer (List.mem_cons_of_mem _ hmem)
      by_cases htold : told.map IncomingOffer.id = some id
      · -- what was told expires: it is not what is announced last
        have hshows : showAfter (.offerExpired id :: events) told = showAfter events none := by
          simp [showAfter, PageEvent.shows, htold]
        rw [hshows]
        rcases lastAnnounced_eq_or events with ⟨view, -, hlast⟩ | ⟨-, hlast⟩
        · have hnone : showAfter events none = lastAnnounced events none :=
            ih fun offer hoffer => htail offer (by rw [hlast]; rwa [hlast] at hoffer)
          exact hnone.trans ((hlast none).trans (hlast told).symm)
        · obtain ⟨offer, rfl, hid⟩ := Option.map_eq_some_iff.mp htold
          exact absurd (hid ▸ List.mem_cons_self) (h offer (hlast _))
      · have hshows : showAfter (.offerExpired id :: events) told = showAfter events told := by
          simp [showAfter, PageEvent.shows, htold]
        rw [hshows]
        exact ih htail

/-- No expiry comes before the announcement of its offer, or of an earlier one. -/
def Ordered (events : List PageEvent) : Prop :=
  events.Pairwise fun e e' => ∀ id view, e = .offerExpired id → e' = .incomingOffer view →
    id < view.id

/-- The offer announced last goes, if its expiry comes. -/
theorem showAfter_of_expiry {events : List PageEvent} (hordered : Ordered events)
    {told : Option IncomingOffer} {offer : IncomingOffer}
    (hlast : lastAnnounced events told = some offer)
    (hexpiry : .offerExpired offer.id ∈ events) : showAfter events told = none := by
  induction events generalizing told with
  | nil => cases hexpiry
  | cons event events ih =>
    obtain ⟨hhead, htail⟩ := List.pairwise_cons.mp hordered
    cases event with
    | incomingOffer view =>
      refine ih htail hlast ?_
      rcases List.mem_cons.mp hexpiry with habs | hmem
      · cases habs
      · exact hmem
    | offerExpired id =>
      have hlast : lastAnnounced events told = some offer := hlast
      have hshows : showAfter (.offerExpired id :: events) told =
          showAfter events (if told.map IncomingOffer.id = some id then none else told) := rfl
      rw [hshows]
      rcases lastAnnounced_eq_or events with ⟨view, hmem, hall⟩ | ⟨hnone, hall⟩
      · -- announced by a later event: this expiry is of an earlier offer
        have hview : view = offer := Option.some.inj ((hall told).symm.trans hlast)
        have hlt := hhead _ hmem id view rfl rfl
        refine ih htail (hall _ ▸ hview ▸ rfl) ?_
        rcases List.mem_cons.mp hexpiry with habs | hmem
        · cases habs
          rw [hview] at hlt
          exact absurd hlt (Nat.lt_irrefl _)
        · exact hmem
      · have htold : told = some offer := (hall told).symm.trans hlast
        by_cases hid : offer.id = id
        · rw [if_pos (by rw [htold, Option.map_some, hid]),
            showAfter_eq_lastAnnounced (by rw [hall]; nofun)]
          exact hall none
        · rw [if_neg (by rw [htold, Option.map_some]; simpa using hid)]
          refine ih htail hlast ?_
          rcases List.mem_cons.mp hexpiry with habs | hmem
          · cases habs
            exact absurd rfl hid
          · exact hmem

/-! ## What the process owes -/

namespace Desk

/-- No call of `respond_offer` has been made. -/
def Unanswered (s : Desk) : Prop := ∀ c, s.calls c = .none

/-- What a step does to the slot and to what is owed: nothing; an offer is stored; what was
owed is emitted; or the offer in the slot has expired. -/
inductive Owing (s : Desk) (a : Action) (s' : Desk) : Prop
  | still : Interface.emitted s a = [] → s'.forwarder.owes = s.forwarder.owes →
      s'.pending = s.pending → Owing s a s'
  | stored (p : PendingOffer) : Interface.emitted s a = [] → s.forwarder.owes = [] →
      s'.forwarder.owes = [.incomingOffer p.view] → s'.pending = some p → Owing s a s'
  | paid : Interface.emitted s a = s.forwarder.owes → s'.forwarder.owes = [] →
      s'.pending = s.pending → Owing s a s'
  | expired (id : Nat) : Interface.emitted s a = [] → s.forwarder.owes = [] →
      s'.forwarder.owes = [.offerExpired id] → s'.pending = none →
      (∀ p, s.pending = some p → p.view.id = id) → Owing s a s'

variable {s s' : Desk} {a : Action} {event : Option Event}

theorem owing (h : s.Numbered) (hcalls : s.Unanswered) (hst : Step s a event s') :
    Owing s a s' := by
  cases hst with
  | recv hforwarder _ _ | overflow hforwarder _ _ | enterWait hforwarder | wake hforwarder _
  | expire hforwarder _ =>
    exact .still rfl (by rw [hforwarder]; rfl) rfl
  | store hforwarder _ | displace hforwarder _ =>
    exact .stored _ rfl (by rw [hforwarder]; rfl) rfl rfl
  | emitIncoming hforwarder | emitExpired hforwarder =>
    exact .paid (by simp [Interface.emitted, hforwarder, Forwarder.owes]) rfl rfl
  | @takeExpired id pending hforwarder hpending =>
    refine .expired id rfl (by rw [hforwarder]; rfl) rfl rfl fun p hp => ?_
    rw [h.pending hp]
    exact (h.current (by rw [hforwarder]; rfl)).symm
  | @skipExpired id hforwarder hpending =>
    exact .expired id rfl (by rw [hforwarder]; rfl) rfl hpending (by simp [hpending])
  | @take c _ _ hc _ =>
    rw [hcalls c] at hc
    cases hc
  | _ => exact .still rfl rfl rfl

/-- Nobody answers an offer unless `respond_offer` is called. -/
theorem Unanswered.step (hcalls : s.Unanswered) (ha : PageStart.answers a = false)
    (hst : Step s a event s') : s'.Unanswered := by
  cases hst with
  | respond | respondFails => cases ha
  | @take c _ _ hc _ | @takeFails c _ _ hc _ | @send c _ _ hc | @notify c _ _ hc =>
    rw [hcalls c] at hc
    cases hc
  | _ => exact hcalls

/-- Offer `id` has expired: it is not in the slot, and the offers to come are later. -/
structure Past (s : Desk) (id : Nat) : Prop where
  le : id ≤ s.lastStored
  current : ∀ j, s.forwarder.current = some j → id < j
  pending : ∀ p, s.pending = some p → p.view.id ≠ id

/-- Nothing is stored. -/
theorem Past.mono {id : Nat} (h : s.Past id) (hlast : s'.lastStored = s.lastStored)
    (hcurrent : ∀ j, s'.forwarder.current = some j → s.forwarder.current = some j)
    (hpending : ∀ p, s'.pending = some p → s.pending = some p) : s'.Past id :=
  ⟨hlast ▸ h.le, fun j hj => h.current j (hcurrent j hj), fun p hp => h.pending p (hpending p hp)⟩

/-- An id that is past stays past. -/
theorem Past.step {id : Nat} (hnumbered : s.Numbered) (h : s.Past id)
    (hst : Step s a event s') : s'.Past id := by
  cases hst with
  | recv hforwarder _ _ | overflow hforwarder _ _ =>
    exact h.mono (by simp [lastStored, hforwarder]) (fun _ hj => by cases hj) (fun _ hp => hp)
  | @store p hforwarder _ | @displace p _ hforwarder _ =>
    -- the offer stored now has a number that no earlier one had
    obtain ⟨hid, hnext⟩ := hnumbered.storing hforwarder
    have hlt : id < p.view.id := by
      have hle := h.le
      omega
    refine ⟨?_, ?_, ?_⟩
    · rw [show lastStored _ = s.nextId from rfl, ← hid]
      exact Nat.le_of_lt hlt
    · intro j hj
      cases hj
      exact hlt
    · intro q hq
      cases hq
      exact Nat.ne_of_gt hlt
  | emitIncoming hforwarder | enterWait hforwarder | expire hforwarder _
  | skipExpired hforwarder _ =>
    exact h.mono (by simp [lastStored, hforwarder])
      (fun j hj => by rw [hforwarder]; exact hj) (fun _ hp => hp)
  | takeExpired hforwarder _ =>
    exact h.mono (by simp [lastStored, hforwarder])
      (fun j hj => by rw [hforwarder]; exact hj) (fun _ hp => by cases hp)
  | wake hforwarder _ | emitExpired hforwarder =>
    exact h.mono (by simp [lastStored, hforwarder]) (fun _ hj => by cases hj) (fun _ hp => hp)
  | take _ _ => exact h.mono rfl (fun _ hj => hj) (fun _ hp => by cases hp)
  | _ => exact h.mono rfl (fun _ hj => hj) (fun _ hp => hp)

/-- An offer is past once its expiry is emitted. -/
theorem past_of_emitted {id : Nat} (hnumbered : s.Numbered) (hst : Step s a event s')
    (hmem : .offerExpired id ∈ Interface.emitted s a) : s'.Past id := by
  cases hst with
  | @emitExpired id' hforwarder =>
    have hid : id = id' := by simpa [Interface.emitted, hforwarder] using hmem
    subst hid
    refine ⟨?_, ?_, ?_⟩
    · have hcurrent : id = s.lastStored := hnumbered.current (by rw [hforwarder]; rfl)
      simpa [lastStored, hforwarder] using Nat.le_of_eq hcurrent
    · intro j hj
      cases hj
    · intro p hp
      rw [hnumbered.retiring hforwarder] at hp
      cases hp
  | @emitIncoming view hforwarder => simp [Interface.emitted, hforwarder] at hmem
  | _ => cases hmem

/-- What is emitted was owed. -/
theorem Owing.emitted_sublist (h : Owing s a s') :
    (Interface.emitted s a).Sublist s.forwarder.owes := by
  cases h with
  | paid hemitted => exact hemitted ▸ List.Sublist.refl _
  | still hemitted | stored _ hemitted | expired _ hemitted =>
    exact hemitted ▸ List.nil_sublist _

/-- What is owed is about the offer that `forward_offers` is busy with. -/
theorem current_of_owes {e : PageEvent} (hmem : e ∈ s.forwarder.owes) :
    (∃ view, e = .incomingOffer view ∧ s.forwarder.current = some view.id) ∨
      ∃ id, e = .offerExpired id ∧ s.forwarder = .retiring id := by
  unfold Forwarder.owes at hmem
  split at hmem
  · rename_i view hforwarder
    exact .inl ⟨view, List.mem_singleton.mp hmem, by rw [hforwarder]; rfl⟩
  · rename_i id hforwarder
    exact .inr ⟨id, List.mem_singleton.mp hmem, hforwarder⟩
  · cases hmem

end Desk

/-! ## What the peer tasks owe -/

namespace PeerWatch

/-- What a step does to the stored list and to what is owed: nothing, or the first list is
made; a list is stored; or what was owed is emitted. -/
inductive Owing (s : PeerWatch) (a : Action) (s' : PeerWatch) : Prop
  | still : PageStart.emittedPeers s a = [] → s'.body.owes = s.body.owes →
      s'.stored = s.stored ∨ s.stored = none → Owing s a s'
  | stored (l : List Peer) : PageStart.emittedPeers s a = [] → s.body.owes = [] →
      s'.body.owes = [l] → s'.stored = some l → Owing s a s'
  | paid : PageStart.emittedPeers s a = s.body.owes → s'.body.owes = [] →
      s'.stored = s.stored → Owing s a s'

theorem owing {text : PeerText} {s s' : PeerWatch} {a : Action} (h : s.Tracks text)
    (hst : Step text s a s') : Owing s a s' := by
  cases hst with
  | ignore | send | stop | spawn | wake => exact .still rfl rfl (.inl rfl)
  | snapshot hnone => exact .still rfl rfl (.inr hnone)
  | take htake =>
    -- the loop is outside its body when it takes a list
    have hidle : s.body = .idle :=
      h.idle_of_phase (by rw [(Watch.Reader.take_spec htake).1]; nofun)
    exact .still rfl (by rw [hidle]; rfl) (.inl rfl)
  | store hbody => exact .stored _ rfl (by rw [hbody]; rfl) rfl rfl
  | emit hbody _ =>
    exact .paid (by simp [PageStart.emittedPeers, hbody, PeerBody.owes]) rfl rfl

end PeerWatch

namespace PageStart

variable {text : PeerText} {mobile : Bool} {s s' : PageStart} {a : Action}

/-! ## Steps -/

/-- The steps again, one constructor for each thing that can happen. -/
inductive Step (text : PeerText) (s : PageStart) : Action → PageStart → Prop
  | watch {a : PeerWatch.Action} {watch : PeerWatch} : s.watch.step text a = some watch →
      Step text s (.watch a)
        { s with watch, events := s.emit ((emittedPeers s.watch a).map .peers) }
  | desk {a : Desk.Action} {desk : Desk} : answers a = false → s.desk.step a = some desk →
      Step text s (.desk a)
        { s with desk, events := s.emit ((Interface.emitted s.desk a).map .offer) }
  | register {kind : ListenerKind} : s.page.startUp = .connecting →
      Step text s (.register kind)
        { s with listening := Function.update s.listening kind true }
  | connect : s.page.startUp = .connecting → (∀ kind, s.listening kind = true) →
      Step text s .connect { s with page := { s.page with startUp := .invoking } }
  | readPeers {peers : List Peer} : s.page.startUp = .invoking → s.watch.stored = some peers →
      Step text s .readPeers { s with peersRead := some peers }
  | readOffer {mobile : Bool} : s.page.startUp = .invoking →
      Step text s .readOffer { s with page := { s.page with
        startUp := .fetched mobile (s.desk.pending.map PendingOffer.view) } }
  | deliver {event : UiEvent} {events : List UiEvent} : s.events = event :: events →
      Step text s .deliver ({ s with events }.listen event)
  | complete {mobile : Bool} {incomingOffer : Option IncomingOffer} {peers : List Peer} :
      s.page.startUp = .fetched mobile incomingOffer → s.peersRead = some peers →
      Step text s .complete { s with peers, page := s.page.started mobile incomingOffer }

/-- The steps of the model are those of `Step`. -/
theorem step_spec (hst : s.step text mobile a = some s') : Step text s a s' := by
  cases a <;> simp only [step] at hst
  case watch a =>
    obtain ⟨watch, hwatch, rfl⟩ := Option.map_eq_some_iff.mp hst
    exact .watch hwatch
  case desk a =>
    split at hst
    · cases hst
    · rename_i hanswers
      obtain ⟨desk, hdesk, rfl⟩ := Option.map_eq_some_iff.mp hst
      exact .desk (Bool.not_eq_true _ ▸ hanswers) hdesk
  case register kind =>
    split at hst <;> cases hst
    exact .register ‹_›
  case connect =>
    split at hst
    · split at hst <;> cases hst
      rename_i hall
      obtain ⟨⟨hpeers, hincoming⟩, hexpired⟩ :
          (s.listening .peers = true ∧ s.listening .incomingOffer = true) ∧
            s.listening .offerExpired = true := by simpa using hall
      refine .connect ‹_› fun kind => ?_
      cases kind <;> assumption
    · cases hst
  case readPeers =>
    split at hst <;> cases hst
    exact .readPeers ‹_› ‹_›
  case readOffer =>
    split at hst <;> cases hst
    exact .readOffer ‹_›
  case deliver =>
    split at hst <;> cases hst
    exact .deliver ‹_›
  case complete =>
    split at hst <;> cases hst
    exact .complete ‹_› ‹_›

/-! ## The queue -/

/-- A list that is emitted comes last to a page that listens. -/
theorem emit_peers (s : PageStart) (lists : List (List Peer)) :
    (s.emit (lists.map .peers)).filterMap UiEvent.peers? =
        s.events.filterMap UiEvent.peers? ++ (if s.listening .peers then lists else []) ∧
      (s.emit (lists.map .peers)).filterMap UiEvent.offer? =
        s.events.filterMap UiEvent.offer? := by
  have hkind : ∀ l : List Peer, (UiEvent.peers l).kind = .peers := fun _ => rfl
  rw [emit, List.filterMap_append, List.filterMap_append]
  cases hheard : s.listening .peers with
  | true => simp [List.filter_map, Function.comp_def, hkind, hheard, UiEvent.peers?, UiEvent.offer?]
  | false => simp [List.filter_map, Function.comp_def, hkind, hheard]

/-- So does what is emitted about offers. -/
theorem emit_offers (s : PageStart) (offers : List PageEvent) :
    (s.emit (offers.map .offer)).filterMap UiEvent.peers? =
        s.events.filterMap UiEvent.peers? ∧
      (s.emit (offers.map .offer)).filterMap UiEvent.offer? =
        s.events.filterMap UiEvent.offer? ++
          offers.filter (fun e => s.listening (UiEvent.offer e).kind) := by
  rw [emit, List.filterMap_append, List.filterMap_append]
  simp [List.filter_map, Function.comp_def, UiEvent.peers?, UiEvent.offer?]

/-! ## Invariants -/

/-- What holds in every state: of the listeners and the dialog, of the peers on their way,
and of the offers. -/
structure Sound (text : PeerText) (s : PageStart) : Prop where
  watch : (PeerWatch.machine text).Reachable s.watch
  desk : Desk.machine.Reachable s.desk
  unanswered : s.desk.Unanswered
  listening : s.page.startUp ≠ .connecting → ∀ kind, s.listening kind = true
  unheard : ∀ kind, s.listening kind = false → ∀ e ∈ s.events, e.kind ≠ kind
  dialog : s.page.incomingOffer.isSome = true → s.page.dialogOpen = true
  peers : ∀ l, s.comingPeers.getLast? = some l → s.watch.stored = some l
  past : ∀ id, .offerExpired id ∈ s.events.filterMap UiEvent.offer? → s.desk.Past id
  ordered : Ordered (s.events.filterMap UiEvent.offer?)

/-- What holds once `start()` has completed. -/
structure Conserved (s : PageStart) : Prop where
  peers : s.watch.stored = some (s.comingPeers.getLast?.getD s.peers)
  offer : showAfter s.comingOffers s.page.incomingOffer = s.desk.pending.map PendingOffer.view

/-- What is owed comes after what is on its way. -/
theorem Sound.ordered_append (h : s.Sound text) {more : List PageEvent}
    (hmore : more.Sublist s.desk.forwarder.owes) :
    Ordered (s.events.filterMap UiEvent.offer? ++ more) := by
  refine List.pairwise_append.mpr ⟨h.ordered, ?_, ?_⟩
  · refine List.Pairwise.sublist hmore ?_
    unfold Forwarder.owes
    split <;> simp
  · rintro e he e' he' id view rfl rfl
    rcases Desk.current_of_owes (hmore.subset he') with ⟨_, ⟨⟩, hcurrent⟩ | ⟨_, habs, -⟩
    · exact (h.past id he).current _ hcurrent
    · cases habs

/-- Nothing that nobody listens for is on its way. -/
theorem Sound.unheard_emit (h : s.Sound text) (events : List UiEvent) (kind : ListenerKind)
    (hkind : s.listening kind = false) : ∀ e ∈ s.emit events, e.kind ≠ kind := by
  intro e he
  rcases List.mem_append.mp he with hmem | hmem
  · exact h.unheard kind hkind e hmem
  · rintro rfl
    have hheard : s.listening e.kind = true := by simpa using (List.mem_filter.mp hmem).2
    rw [hkind] at hheard
    cases hheard

/-- What nobody listens to is not on its way. -/
theorem Sound.peers_unheard (h : s.Sound text) (hheard : s.listening .peers = false) :
    s.events.filterMap UiEvent.peers? = [] := by
  refine List.filterMap_eq_nil_iff.mpr fun e he => ?_
  have hne := h.unheard _ hheard e he
  cases e with
  | peers l => exact absurd rfl hne
  | offer e => rfl

/-- The peer task takes its steps. -/
theorem Sound.watched (h : s.Sound text) {a : PeerWatch.Action} {watch : PeerWatch}
    (hwatch : s.watch.step text a = some watch) :
    Sound text { s with watch, events := s.emit ((emittedPeers s.watch a).map .peers) } := by
  obtain ⟨hpeers, hoffers⟩ := emit_peers s (emittedPeers s.watch a)
  refine { h with
    watch := .step h.watch trivial hwatch
    unheard := fun kind hkind => h.unheard_emit _ kind hkind
    peers := ?_
    past := ?_
    ordered := ?_ }
  · simp only [comingPeers, hpeers]
    cases PeerWatch.owing (PeerWatch.reachable_tracks h.watch) (PeerWatch.step_spec hwatch) with
    | still hemitted howes hstored =>
      intro l hl
      have hsame : s.watch.stored = some l :=
        h.peers l (by simpa [comingPeers, hemitted, howes] using hl)
      rcases hstored with hstored | hnone
      · rw [hstored, hsame]
      · rw [hnone] at hsame
        cases hsame
    | stored l _ _ howes hstored =>
      intro l' hl'
      rw [howes, List.getLast?_concat] at hl'
      rw [hstored, hl']
    | paid hemitted howes hstored =>
      intro l hl
      rw [howes, List.append_nil, hemitted] at hl
      rw [hstored]
      split at hl
      · exact h.peers l hl
      · rename_i hheard
        rw [h.peers_unheard (Bool.not_eq_true _ ▸ hheard)] at hl
        cases hl
  · simp only [hoffers]
    exact h.past
  · simp only [hoffers]
    exact h.ordered

/-- Handlers and `forward_offers` take their steps. -/
theorem Sound.desked (h : s.Sound text) {a : Desk.Action} {desk : Desk}
    (ha : answers a = false) (hdesk : s.desk.step a = some desk) :
    Sound text { s with desk, events := s.emit ((Interface.emitted s.desk a).map .offer) } := by
  obtain ⟨hpeers, hoffers⟩ := emit_offers s (Interface.emitted s.desk a)
  have hnumbered := Desk.numbered h.desk
  have hst := Desk.step_spec hdesk
  refine { h with
    desk := .step h.desk trivial hdesk
    unanswered := h.unanswered.step ha hst
    unheard := fun kind hkind => h.unheard_emit _ kind hkind
    peers := ?_
    past := ?_
    ordered := ?_ }
  · simp only [comingPeers, hpeers]
    exact h.peers
  · simp only [hoffers]
    intro id hid
    rcases List.mem_append.mp hid with hmem | hmem
    · exact (h.past id hmem).step hnumbered hst
    · exact Desk.past_of_emitted hnumbered hst (List.mem_of_mem_filter hmem)
  · simp only [hoffers]
    exact h.ordered_append
      (List.filter_sublist.trans (Desk.owing hnumbered h.unanswered hst).emitted_sublist)

/-! ### An event is delivered -/

variable {event : UiEvent} {events : List UiEvent}

@[simp] theorem listen_watch : (s.listen event).watch = s.watch := by cases event <;> rfl
@[simp] theorem listen_desk : (s.listen event).desk = s.desk := by cases event <;> rfl
@[simp] theorem listen_events : (s.listen event).events = s.events := by cases event <;> rfl
@[simp] theorem listen_listening : (s.listen event).listening = s.listening := by
  cases event <;> rfl
@[simp] theorem listen_startUp : (s.listen event).page.startUp = s.page.startUp := by
  cases event with
  | peers payload => rfl
  | offer event => exact Page.listen_startUp event

/-- The lists on their way are those behind the event that is processed, and its own. -/
theorem comingPeers_cons (hevents : s.events = event :: events) :
    s.comingPeers = event.peers?.toList ++ ({ s with events }.listen event).comingPeers := by
  cases event <;> simp [comingPeers, hevents, UiEvent.peers?, List.filterMap_cons]

/-- The same for what is on its way about offers. -/
theorem comingOffers_cons (hevents : s.events = event :: events) :
    s.comingOffers = event.offer?.toList ++ ({ s with events }.listen event).comingOffers := by
  cases event <;> simp [comingOffers, hevents, UiEvent.offer?, List.filterMap_cons]

/-- The listeners of the offer dialog show what the events say. -/
theorem listen_incomingOffer (page : Page) (event : PageEvent) :
    (page.listen event).incomingOffer = event.shows page.incomingOffer := by
  cases event with
  | incomingOffer view => rfl
  | offerExpired id =>
    simp only [Page.listen, PageEvent.shows]
    split <;> rfl

/-- An offer that the page holds is one its dialog shows. -/
theorem listen_dialog {page : Page} (event : PageEvent)
    (h : page.incomingOffer.isSome = true → page.dialogOpen = true) :
    (page.listen event).incomingOffer.isSome = true → (page.listen event).dialogOpen = true := by
  cases event with
  | incomingOffer view => exact fun _ => rfl
  | offerExpired id =>
    simp only [Page.listen]
    split
    · intro hsome
      cases hsome
    · exact h

/-- The page processes the oldest event. -/
theorem Sound.delivered (h : s.Sound text) (hevents : s.events = event :: events) :
    Sound text ({ s with events }.listen event) := by
  have hmem : ∀ e ∈ events, e ∈ s.events := fun e he => hevents ▸ List.mem_cons_of_mem _ he
  have hsub : (events.filterMap UiEvent.offer?).Sublist (s.events.filterMap UiEvent.offer?) :=
    (hevents ▸ List.sublist_cons_self event events : events.Sublist s.events).filterMap _
  constructor
  case watch => simpa using h.watch
  case desk => simpa using h.desk
  case unanswered => simpa using h.unanswered
  case listening => simpa using h.listening
  case unheard => simpa using fun kind hkind e he => h.unheard kind hkind e (hmem e he)
  case dialog =>
    cases event with
    | peers payload => exact h.dialog
    | offer event => exact listen_dialog event h.dialog
  case peers =>
    intro l hl
    rw [listen_watch]
    refine h.peers l ?_
    rw [comingPeers_cons hevents, List.getLast?_append, hl, Option.some_or]
  case past => simpa using fun id hid => h.past id (hsub.subset hid)
  case ordered =>
    have hordered : Ordered (events.filterMap UiEvent.offer?) := h.ordered.sublist hsub
    simpa using hordered

/-- Every step, by what takes it. -/
theorem Sound.step (h : s.Sound text) (hst : Step text s a s') : s'.Sound text := by
  cases hst with
  | watch hwatch => exact h.watched hwatch
  | desk ha hdesk => exact h.desked ha hdesk
  | @register kind hconnecting =>
    refine { h with
      listening := fun hne => absurd hconnecting hne
      unheard := fun kind' hkind' => ?_ }
    by_cases hkind : kind' = kind
    · simp [hkind] at hkind'
    · exact h.unheard kind' (by simpa [hkind] using hkind')
  | connect _ hall => exact { h with listening := fun _ => hall }
  | readPeers _ _ => exact { h with }
  | readOffer hinvoking =>
    exact { h with listening := fun _ => h.listening (by rw [hinvoking]; nofun) }
  | deliver hevents => exact h.delivered hevents
  | @complete mobile incomingOffer peers hfetched _ =>
    refine { h with
      listening := fun _ => h.listening (by rw [hfetched]; nofun)
      dialog := ?_ }
    cases incomingOffer with
    | none => nofun
    | some offer => exact fun _ => rfl

/-- What holds while the page starts, in every run. -/
theorem reachable_sound {C : PageStart → Action → Prop}
    (hs : (machine text mobile).ReachableBy C s) : s.Sound text := by
  refine hs.invariant (I := Sound text) ?_ ?_
  · rintro s rfl
    exact {
      watch := .init rfl
      desk := .init rfl
      unanswered := fun _ => rfl
      listening := fun hne => absurd rfl hne
      unheard := fun _ _ _ he => absurd he List.not_mem_nil
      dialog := nofun
      peers := nofun
      past := fun _ hid => absurd hid List.not_mem_nil
      ordered := List.Pairwise.nil }
  · intro s a s' _ h _ hst
    exact h.step (step_spec hst)

/-! ## Nothing is lost -/

/-- The peer task owes the page what it has stored. -/
theorem Conserved.watched (hc : s.Conserved) (h : s.Sound text)
    (hall : ∀ kind, s.listening kind = true) {a : PeerWatch.Action} {watch : PeerWatch}
    (hwatch : s.watch.step text a = some watch) :
    Conserved { s with watch, events := s.emit ((emittedPeers s.watch a).map .peers) } := by
  obtain ⟨hpeers, hoffers⟩ := emit_peers s (emittedPeers s.watch a)
  rw [if_pos (hall .peers)] at hpeers
  refine ⟨?_, ?_⟩
  · have hstored := hc.peers
    simp only [comingPeers, hpeers] at hstored ⊢
    cases PeerWatch.owing (PeerWatch.reachable_tracks h.watch) (PeerWatch.step_spec hwatch) with
    | still hemitted howes hor =>
      rcases hor with hsame | hnone
      · rw [hsame, hemitted, howes, List.append_nil, hstored]
      · rw [hstored] at hnone
        cases hnone
    | stored l _ _ howes hl => rw [hl, howes, List.getLast?_concat, Option.getD_some]
    | paid hemitted howes hsame => rw [hsame, hemitted, howes, List.append_nil, hstored]
  · simpa only [comingOffers, hoffers] using hc.offer

/-- `forward_offers` owes the page what it has done to the slot. -/
theorem Conserved.desked (hc : s.Conserved) (h : s.Sound text)
    (hall : ∀ kind, s.listening kind = true) {a : Desk.Action} {desk : Desk}
    (hdesk : s.desk.step a = some desk) :
    Conserved { s with desk, events := s.emit ((Interface.emitted s.desk a).map .offer) } := by
  obtain ⟨hpeers, hoffers⟩ := emit_offers s (Interface.emitted s.desk a)
  rw [List.filter_eq_self.mpr fun e _ => hall (UiEvent.offer e).kind] at hoffers
  refine ⟨by simpa only [comingPeers, hpeers] using hc.peers, ?_⟩
  have hshown := hc.offer
  simp only [comingOffers, hoffers] at hshown ⊢
  cases Desk.owing (Desk.numbered h.desk) h.unanswered (Desk.step_spec hdesk) with
  | still hemitted howes hpending =>
    rw [hemitted, howes, hpending, List.append_nil, hshown]
  | stored p hemitted _ howes hpending =>
    rw [howes, hpending, showAfter_append]
    rfl
  | paid hemitted howes hpending =>
    rw [hemitted, howes, hpending, List.append_nil, hshown]
  | expired id hemitted hidle howes hpending hid =>
    rw [hidle, List.append_nil] at hshown
    rw [hemitted, howes, hpending, List.append_nil, showAfter_append, hshown]
    cases hp : s.desk.pending with
    | none => rfl
    | some p => simp [showAfter, PageEvent.shows, hid p hp]

/-- An event that has been processed was on its way. -/
theorem Conserved.delivered (hc : s.Conserved) (hevents : s.events = event :: events) :
    Conserved ({ s with events }.listen event) := by
  have hpeers := hc.peers
  have hoffer := hc.offer
  rw [comingPeers_cons hevents] at hpeers
  rw [comingOffers_cons hevents] at hoffer
  refine ⟨?_, ?_⟩
  · rw [listen_watch, hpeers, List.getLast?_append]
    cases event with
    | peers payload => cases (comingPeers _).getLast? <;> rfl
    | offer event => cases (comingPeers _).getLast? <;> rfl
  · rw [listen_desk, ← hoffer]
    cases event with
    | peers payload => rfl
    | offer event =>
      rw [showAfter_append]
      exact congrArg (showAfter _) (listen_incomingOffer s.page event)

/-- After the response, every step conserves. -/
theorem Conserved.step (hc : s.Conserved) (h : s.Sound text)
    (hcompleted : s.page.startUp = .completed) (hst : Step text s a s') : s'.Conserved := by
  have hall := h.listening (by rw [hcompleted]; nofun)
  cases hst with
  | watch hwatch => exact hc.watched h hall hwatch
  | desk _ hdesk => exact hc.desked h hall hdesk
  | deliver hevents => exact hc.delivered hevents
  | register hstartUp | connect hstartUp _ | readPeers hstartUp _ | readOffer hstartUp
  | complete hstartUp _ =>
    rw [hcompleted] at hstartUp
    cases hstartUp

/-! ## The response -/

/-- The slot holds no offer whose expiry is coming. -/
theorem Sound.not_expiring (h : s.Sound text) {p : PendingOffer} (hp : s.desk.pending = some p) :
    .offerExpired p.view.id ∉ s.comingOffers := by
  intro hmem
  rcases List.mem_append.mp hmem with hcoming | howed
  · exact (h.past _ hcoming).pending p hp rfl
  · rcases Desk.current_of_owes howed with ⟨_, habs, -⟩ | ⟨id, -, hretiring⟩
    · cases habs
    · rw [(Desk.numbered h.desk).retiring hretiring] at hp
      cases hp

/-- The events on their way bring a page that has read `incomingOffer` to the slot exactly
if that was current. -/
theorem Sound.offerCurrent_iff (h : s.Sound text) (incomingOffer : Option IncomingOffer) :
    s.offerCurrent incomingOffer = true ↔
      showAfter s.comingOffers incomingOffer = s.desk.pending.map PendingOffer.view := by
  have hordered : Ordered s.comingOffers := h.ordered_append (List.Sublist.refl _)
  simp only [offerCurrent, Bool.or_eq_true, decide_eq_true_eq, Bool.and_eq_true]
  by_cases hexpiry : ∃ offer, lastAnnounced s.comingOffers incomingOffer = some offer ∧
      .offerExpired offer.id ∈ s.comingOffers
  · -- announced last is an offer that expires, so the page ends without one
    obtain ⟨offer, hlast, hmem⟩ := hexpiry
    rw [showAfter_of_expiry hordered hlast hmem, hlast]
    cases hp : s.desk.pending with
    | none => simp [hmem]
    | some p =>
      have hne : offer ≠ p.view := by
        rintro rfl
        exact h.not_expiring hp hmem
      simp [hne]
  · have hstays : ∀ offer, lastAnnounced s.comingOffers incomingOffer = some offer →
        .offerExpired offer.id ∉ s.comingOffers :=
      fun offer hlast hmem => hexpiry ⟨offer, hlast, hmem⟩
    rw [showAfter_eq_lastAnnounced hstays]
    refine or_iff_left ?_
    rintro ⟨-, hany⟩
    obtain ⟨offer, hlast, hmem⟩ := Option.any_eq_true .. |>.mp hany
    exact hstays offer hlast (by simpa using hmem)

theorem Sound.peersCurrent_iff (h : s.Sound text) (peers : List Peer) :
    s.peersCurrent peers = true ↔
      s.watch.stored = some (s.comingPeers.getLast?.getD peers) := by
  simp only [peersCurrent, Bool.or_eq_true, decide_eq_true_eq]
  cases hlast : s.comingPeers.getLast? with
  | none => simp [List.getLast?_eq_none_iff.mp hlast]
  | some l =>
    have hne : s.comingPeers ≠ [] := by
      rintro hnil
      rw [hnil] at hlast
      cases hlast
    simp [hne, h.peers l hlast]

/-- **The response keeps the page up to date exactly if it is not outdated.** -/
theorem conserved_complete_iff (hs : (machine text mobile).Reachable s)
    (hst : s.step text mobile .complete = some s') :
    s'.Conserved ↔ s.outdated .complete = false := by
  have h := reachable_sound hs
  cases step_spec hst with
  | @complete mobile incomingOffer peers hfetched hread =>
    have hoffer : (s.page.started mobile incomingOffer).incomingOffer = incomingOffer := by
      cases incomingOffer <;> rfl
    have hcurrent : s.outdated .complete = false ↔
        s.peersCurrent peers = true ∧ s.offerCurrent incomingOffer = true := by
      simp [outdated, hfetched, hread]
    rw [hcurrent, h.peersCurrent_iff, h.offerCurrent_iff]
    constructor
    · rintro ⟨hpeers, hshown⟩
      exact ⟨hpeers, hoffer ▸ hshown⟩
    · rintro ⟨hpeers, hshown⟩
      exact ⟨hpeers, hoffer.symm ▸ hshown⟩

/-- Only the response of `initial_state` completes `start()`. -/
theorem completed_of_step (hst : Step text s a s') (hne : a ≠ .complete)
    (hcompleted : s'.page.startUp = .completed) : s.page.startUp = .completed := by
  cases hst with
  | deliver _ => rwa [listen_startUp] at hcompleted
  | connect | readOffer => cases hcompleted
  | complete => exact absurd rfl hne
  | _ => exact hcompleted

/-- **The laws hold from the response on**, in every run in which it was not outdated. -/
theorem conserved (hs : (machine text mobile).ReachableBy InTime s)
    (hcompleted : s.page.startUp = .completed) : s.Conserved := by
  revert hcompleted
  refine hs.invariant (I := fun s => s.page.startUp = .completed → s.Conserved) ?_ ?_
  · rintro s rfl
    nofun
  · intro s a s' hr hc hintime hst hcompleted
    by_cases ha : a = .complete
    · subst ha
      exact (conserved_complete_iff hr.reachable hst).mpr hintime
    · have hbefore := completed_of_step (step_spec hst) ha hcompleted
      exact (hc hbefore).step (reachable_sound hr) hbefore (step_spec hst)

/-- **Start-up loses no update.**  If no response of `initial_state` was outdated when it
was processed, then once `start()` has completed and every event is delivered, the page has
the peers of the process and shows exactly the offer in the slot. -/
theorem start_follows (hs : (machine text mobile).ReachableBy InTime s) (hsettled : s.Settled) :
    s.Follows := by
  have hconserved := conserved hs hsettled.completed
  have hpeers : s.comingPeers = [] := by
    rw [comingPeers, hsettled.events, hsettled.peers]
    rfl
  have hoffers : s.comingOffers = [] := by
    rw [comingOffers, hsettled.events, hsettled.offers]
    rfl
  have hoffer := hconserved.offer
  rw [hoffers] at hoffer
  refine ⟨by simpa [hpeers] using hconserved.peers, fun offer => ?_⟩
  rw [← show s.page.incomingOffer = s.desk.pending.map PendingOffer.view from hoffer]
  refine and_iff_right_of_imp fun hshown => ?_
  exact (reachable_sound hs).dialog (by rw [hshown]; rfl)

/-- The steps of `start()` up to the response. -/
def connectRun : List Action :=
  [.watch .snapshot, .register .peers, .register .incomingOffer, .register .offerExpired,
    .connect, .readPeers, .readOffer]

/-- An offer is made and announced. -/
def offerRun (h : HandlerId) : List Action :=
  [.desk (.connect h ⟨1⟩ Offer.sampleOffer), .desk (.enqueue h), .desk (.recv []),
    .desk .store, .desk .emitIncoming]

/-- An offer and a peer come between the snapshot and the response, and their events are
delivered after the response. -/
def racingRun : List Action :=
  let anna := UserData.mk "anna"
  connectRun ++ offerRun 0 ++
    [.watch .spawn, .watch (.event (.discovered ⟨⟨1⟩, some anna, ["a"]⟩) [(anna, ⟨⟨1⟩, ["a"]⟩)]),
      .watch .wake, .watch .take, .watch .store, .watch .emit, .complete, .deliver, .deliver]

theorem start_follows_racing :
    ∃ s, (machine PeerWatch.sampleText false).exec {} racingRun = some s ∧
      s.peers = [⟨"1", "anna", "a"⟩] ∧ s.page.incomingOffer.isSome = true ∧ s.Follows := by
  have hstart : (machine PeerWatch.sampleText false).ReachableBy InTime {} := .init rfl
  have hmeets : (machine PeerWatch.sampleText false).Meets InTime {} racingRun := by decide
  have hs := hstart.exec hmeets rfl
  exact ⟨_, rfl, rfl, rfl, start_follows hs ⟨rfl, rfl, rfl, rfl⟩⟩

/-- The event of an offer is delivered between the snapshot and the response. -/
def overtakenRun : List Action := connectRun ++ offerRun 0 ++ [.deliver, .complete]

/-- The response empties `state.incomingOffer` under the open dialog. -/
theorem overtakenRun_loses_offer :
    ∃ s, (machine PeerWatch.sampleText false).exec {} overtakenRun = some s ∧
      (machine PeerWatch.sampleText false).Reachable s ∧ s.Settled ∧
      s.page.dialogOpen = true ∧ s.page.incomingOffer = none ∧
      s.desk.pending.isSome = true ∧ ¬ s.Follows := by
  have hstart : (machine PeerWatch.sampleText false).Reachable {} := .init rfl
  have hs := hstart.exec
    (rfl : (machine PeerWatch.sampleText false).exec {} overtakenRun = some _)
  refine ⟨_, rfl, hs, ⟨rfl, rfl, rfl, rfl⟩, rfl, rfl, rfl, fun hfollows => ?_⟩
  cases ((hfollows.offer _).mpr rfl).2

end PageStart
end IrohShare
