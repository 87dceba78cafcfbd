import IrohShare.Consent
import IrohShare.Discovery
import IrohShare.OfferDialog

/-!
# What was on the screen when a file was accepted

The whole way of an offer past the user: `discover` follows who announces which name,
`forward_offers` puts the name of its sender beside an offer, the page shows both in the
dialog, and a click there becomes the decision that the handler downloads for.

`Interface` runs inside, with one tie more: the peers that `sender_name` looks at are those
on the channel of `discover`.
-/
namespace IrohShare
open Transition

/-- An offer that `forward_offers` has taken up: its handler, how it is shown, and the
events that `discover` had taken by then. -/
structure Forwarded where
  handler : HandlerId
  view : IncomingOffer
  before : List DiscoveryEvent

/-- A click on a button of the dialog: the offer in it, the button, and the directory that
is chosen then. -/
structure Click where
  shown : IncomingOffer
  accept : Bool
  downloadDir : Option String := none
  deriving DecidableEq, Repr

/-- The peer tasks, and the process with its page.  `log` has the events of the process,
most recent first; it, `forwarded` and `clicks` are only recorded. -/
structure OfferSeen where
  watch : PeerWatch := {}
  interface : Interface
  log : List Desk.Event := []
  forwarded : List Forwarded := []
  clicks : CallId → Option Click := fun _ => none

namespace OfferSeen

/-- What `sender_name` looks at. -/
def peers (s : OfferSeen) : List (String × EndpointAddr) :=
  s.watch.channel.value.map fun (name, addr) => (name.text, addr)

/-- `process` is any step of the process or the page but `recv`, which takes up the next
offer. -/
inductive Action
  | watch (a : PeerWatch.Action)
  | recv
  | process (a : Interface.Action)

def receives : Interface.Action → Bool
  | .desk (.recv _) => true
  | _ => false

/-- The event of a step of the process or the page. -/
def event (s : Interface) : Interface.Action → Option Desk.Event
  | .desk a => s.desk.event a
  | _ => none

/-- The offer that has just been taken up. -/
def takenUp (s : OfferSeen) : Forwarder → List Forwarded
  | .storing pending => [⟨pending.decision, pending.view, s.watch.events⟩]
  | _ => []

/-- The clicks after a step of the page. -/
def clicked (s : OfferSeen) : Interface.Action → CallId → Option Click
  | .answer k accept =>
    match s.interface.page.incomingOffer with
    | some shown => Function.update s.clicks k (some { shown, accept })
    | none => s.clicks
  | .choose k (.ok (some downloadDir)) =>
    Function.update s.clicks k
      ((s.clicks k).map fun click => { click with downloadDir := some downloadDir })
  | _ => s.clicks

variable (text : PeerText)

def step (s : OfferSeen) : Action → Option OfferSeen
  | .watch a => (s.watch.step text a).map fun watch => { s with watch }
  | .recv =>
    (s.interface.step (.desk (.recv s.peers))).map fun interface =>
      { s with
        interface
        log := (s.interface.desk.event (.recv s.peers)).toList ++ s.log
        forwarded := s.takenUp interface.desk.forwarder ++ s.forwarded }
  | .process a =>
    if receives a then none
    else
      (s.interface.step a).map fun interface =>
        { s with
          interface
          log := (event s.interface a).toList ++ s.log
          clicks := s.clicked a }

def machine : Machine OfferSeen Action where
  init s := ∃ mobile, s = { interface := .start mobile }
  step := step text

end OfferSeen

/-! ## The name beside an offer -/

/-- The name that was last announced for an endpoint. -/
def nameBefore (events : List DiscoveryEvent) (id : EndpointId) : String :=
  match announced events id with
  | some (name, _) => name.text
  | none => "Unknown device"

variable {text : PeerText}

/-- `sender_name` finds the name that was last announced. -/
theorem senderName_eq {watch : PeerWatch} (h : watch.Tracks text) (id : EndpointId) :
    senderName (watch.channel.value.map fun (name, addr) => (name.text, addr)) id =
      nameBefore watch.events id := by
  have hpeers : (watch.channel.value.map fun (name, addr) => (name.text, addr)).find?
      (fun peer => peer.2.id = id) = (watch.channel.value.find? fun device => device.2.id = id).map
        fun (name, addr) => (name.text, addr) := List.find?_map ..
  rw [senderName, hpeers, nameBefore]
  cases hfind : watch.channel.value.find? fun device => device.2.id = id with
  | some device =>
    obtain ⟨name, addr⟩ := device
    obtain rfl : addr.id = id := by simpa using List.find?_some hfind
    rw [h.mem_value_iff.mp (List.mem_of_find?_eq_some hfind)]
    rfl
  | none =>
    have hnone : announced watch.events id = none := by
      refine Option.eq_none_iff_forall_ne_some.mpr fun (name, addr) hsome => ?_
      obtain rfl := announced_id hsome
      simpa using List.find?_eq_none.mp hfind _ (h.mem_value_iff.mpr hsome)
    rw [hnone]
    rfl

/-! ## The views of offers that are about -/

/-- The views that `forward_offers` has made and not yet let go. -/
def Forwarder.views : Forwarder → List IncomingOffer
  | storing pending => [pending.view]
  | emitting view => [view]
  | _ => []

def Desk.views (s : Desk) : List IncomingOffer :=
  s.forwarder.views ++ s.pending.toList.map PendingOffer.view

def StartUp.views : StartUp → List IncomingOffer
  | fetched _ incomingOffer => incomingOffer.toList
  | _ => []

def PageEvent.views : PageEvent → List IncomingOffer
  | incomingOffer view => [view]
  | offerExpired _ => []

/-- The views in the process, on their way to the page, and on the page. -/
def Interface.views (s : Interface) : List IncomingOffer :=
  s.desk.views ++ s.events.flatMap PageEvent.views ++ s.page.startUp.views ++
    s.page.incomingOffer.toList

theorem Desk.mem_views {s : Desk} {view : IncomingOffer} :
    view ∈ s.views ↔ view ∈ s.forwarder.views ∨ ∃ p, s.pending = some p ∧ p.view = view := by
  simp [views]

/-- A step of the process makes a view only when it takes up an offer. -/
theorem Desk.views_step {s s' : Desk} {a : Desk.Action} {event : Option Desk.Event}
    (hst : Desk.Step s a event s') {view : IncomingOffer} (hview : view ∈ s'.views) :
    view ∈ s.views ∨
      (∃ peers, a = .recv peers) ∧ ∃ p, s'.forwarder = .storing p ∧ p.view = view := by
  rw [mem_views] at hview ⊢
  cases hst with
  | recv =>
    rcases hview with hview | hview
    · obtain rfl := List.mem_singleton.mp hview
      exact .inr ⟨⟨_, rfl⟩, _, rfl, rfl⟩
    · exact .inl (.inr hview)
  | overflow | emitExpired | enterWait | wake | expire | skipExpired | emitIncoming =>
    rcases hview with hview | hview
    · cases hview
    · exact .inl (.inr hview)
  | store hforwarder | displace hforwarder =>
    refine .inl (.inl ?_)
    rw [hforwarder]
    rcases hview with hview | ⟨_, ⟨⟩, rfl⟩
    · exact hview
    · exact List.mem_singleton_self _
  | takeExpired =>
    rcases hview with hview | ⟨_, ⟨⟩, -⟩
    cases hview
  | take =>
    rcases hview with hview | ⟨_, ⟨⟩, -⟩
    exact .inl (.inl hview)
  | _ => exact .inl hview

/-- What the process emits it has as a view. -/
theorem Interface.mem_views_of_emitted {s : Desk} {a : Desk.Action} {view : IncomingOffer}
    (h : view ∈ (emitted s a).flatMap PageEvent.views) : view ∈ s.views := by
  unfold emitted at h
  split at h
  · split at h
    · rename_i view' hforwarder
      obtain rfl := List.mem_singleton.mp h
      rw [Desk.mem_views, hforwarder]
      exact .inl (List.mem_singleton_self _)
    · cases h
  · split at h <;> cases h
  · cases h

theorem Interface.mem_views {s : Interface} {view : IncomingOffer} :
    view ∈ s.views ↔ view ∈ s.desk.views ∨ view ∈ s.events.flatMap PageEvent.views ∨
      view ∈ s.page.startUp.views ∨ s.page.incomingOffer = some view := by
  simp [views]

theorem PageEvent.mem_views_of_shows {event : PageEvent} {shown : Option IncomingOffer}
    {view : IncomingOffer} (h : event.shows shown = some view) :
    view ∈ event.views ∨ shown = some view := by
  cases event with
  | incomingOffer view' => exact .inl (List.mem_singleton.mpr (Option.some.inj h).symm)
  | offerExpired id =>
    simp only [shows, ite_eq_iff, reduceCtorEq, and_false, false_or] at h
    exact .inr h.2

/-- A step makes a view only when the process takes up an offer. -/
theorem Interface.views_step {s s' : Interface} {a : Interface.Action} (hst : Interface.Step s a s')
    {view : IncomingOffer} (hview : view ∈ s'.views) :
    view ∈ s.views ∨
      (∃ peers, a = .desk (.recv peers)) ∧
        ∃ p, s'.desk.forwarder = .storing p ∧ p.view = view := by
  rw [mem_views] at hview ⊢
  cases hst with
  | @desk a desk _ hdesk =>
    rcases hview with hview | hview | hview
    · rcases Desk.views_step (Desk.step_spec hdesk) hview with hold | ⟨⟨peers, rfl⟩, hnew⟩
      · exact .inl (.inl hold)
      · exact .inr ⟨⟨peers, rfl⟩, hnew⟩
    · dsimp only at hview
      split at hview
      · exact .inl (.inr (.inl hview))
      · rw [List.flatMap_append, List.mem_append] at hview
        rcases hview with hview | hview
        · exact .inl (.inr (.inl hview))
        · exact .inl (.inl (mem_views_of_emitted hview))
    · exact .inl (.inr (.inr hview))
  | connect =>
    rcases hview with hview | hview | hview | hview
    · exact .inl (.inl hview)
    · exact .inl (.inr (.inl hview))
    · cases hview
    · exact .inl (.inr (.inr (.inr hview)))
  | fetch =>
    rcases hview with hview | hview | hview | hview
    · exact .inl (.inl hview)
    · exact .inl (.inr (.inl hview))
    · obtain ⟨p, hp, rfl⟩ := Option.map_eq_some_iff.mp (Option.mem_toList.mp hview)
      exact .inl (.inl (Desk.mem_views.mpr (.inr ⟨p, hp, rfl⟩)))
    · exact .inl (.inr (.inr (.inr hview)))
  | complete hfetched =>
    rw [Page.started_startUp, Page.started_incomingOffer] at hview
    rcases hview with hview | hview | hview | hview
    · exact .inl (.inl hview)
    · exact .inl (.inr (.inl hview))
    · cases hview
    · refine .inl (.inr (.inr (.inl ?_)))
      rw [hfetched]
      exact Option.mem_toList.mpr hview
  | @answer k accept =>
    obtain ⟨answer, heq, -⟩ := s.page.answerOffer_eq k accept
    rw [heq] at hview
    exact .inl hview
  | @choose k offer choice =>
    obtain ⟨answer, offerError, heq⟩ := s.page.chosen_eq k offer choice
    rw [heq] at hview
    exact .inl hview
  | @deliver event events hevents =>
    rw [Page.listen_startUp, Page.listen_incomingOffer] at hview
    rw [hevents, List.flatMap_cons, List.mem_append]
    rcases hview with hview | hview | hview | hview
    · exact .inl (.inl hview)
    · exact .inl (.inr (.inl (.inr hview)))
    · exact .inl (.inr (.inr (.inl hview)))
    · rcases PageEvent.mem_views_of_shows hview with hview | hview
      · exact .inl (.inr (.inl (.inl hview)))
      · exact .inl (.inr (.inr (.inr hview)))
  | @respond k offer accept downloadDir result =>
    rw [Page.responded_startUp] at hview
    rcases hview with hview | hview | hview | hview
    · exact .inl (.inl hview)
    · exact .inl (.inr (.inl hview))
    · exact .inl (.inr (.inr (.inl hview)))
    · cases result with
      | ok => cases hview
      | error => exact .inl (.inr (.inr (.inr hview)))

namespace OfferSeen
variable {s s' : OfferSeen}

/-! ## From the name to the download -/

/-- What is recorded of an offer fits its handler and its number, and the name beside it is
the one that its sender had announced. -/
structure Fits (s : OfferSeen) (m : Forwarded) : Prop where
  before : m.before <+: s.watch.events
  assigned : .assigned m.view.id m.handler ∈ s.log
  shown : ∃ handler, s.interface.desk.handlers m.handler = some handler ∧
    m.view.filename = handler.offer.filename ∧ m.view.filesize = handler.offer.filesize ∧
    m.view.sender = nameBefore m.before handler.offer.ticket.addr.id

/-- The view of an offer that was taken up. -/
def Known (s : OfferSeen) (view : IncomingOffer) : Prop := ∃ m ∈ s.forwarded, m.view = view

/-- A click, by how far its call of `answerOffer` has come. -/
inductive Clicked (mobile : Bool) : Answer → Option Click → Prop
  | none : Clicked mobile .none none
  | choosing (shown : IncomingOffer) :
      Clicked mobile (.choosing shown) (some { shown, accept := true })
  | awaiting (shown : IncomingOffer) {accept : Bool} {downloadDir : Option String} :
      (accept = true → downloadDir = Option.none → mobile = true) →
      Clicked mobile (.awaiting shown accept downloadDir) (some { shown, accept, downloadDir })
  | finished (click : Option Click) : Clicked mobile .finished click

/-- What stands behind a call of `respond_offer` that has resolved to a directory. -/
def Accepted (s : OfferSeen) (k : CallId) (id : Nat) (dir : String) : Prop :=
  ((∃ shown accept downloadDir,
      s.interface.page.answers k = .awaiting shown accept downloadDir) ∨
    s.interface.page.answers k = .finished) ∧
  ∃ click, s.clicks k = some click ∧ click.accept = true ∧ click.shown.id = id ∧
    (click.downloadDir = some dir ∨ click.downloadDir = none ∧ s.interface.mobile = true)

structure Sound (text : PeerText) (s : OfferSeen) : Prop where
  tracks : s.watch.Tracks text
  logged : Desk.logged.Reachable ⟨s.interface.desk, s.log⟩
  forwarded : ∀ m ∈ s.forwarded, s.Fits m
  views : ∀ view ∈ s.interface.views, s.Known view
  clicks : ∀ k click, s.clicks k = some click → s.Known click.shown
  answers : ∀ k, Clicked s.interface.mobile (s.interface.page.answers k) (s.clicks k)
  mobile : s.interface.page.mobile = true → s.interface.mobile = true
  fetched : ∀ mobile incomingOffer,
    s.interface.page.startUp = .fetched mobile incomingOffer → mobile = s.interface.mobile
  accepted : ∀ k id dir, .resolved k id (.accept dir) ∈ s.log → s.Accepted k id dir

theorem Sound.watch (h : s.Sound text) {a : PeerWatch.Action} {watch : PeerWatch}
    (hst : s.watch.step text a = some watch) : Sound text { s with watch } := by
  have hstep := PeerWatch.step_spec hst
  refine { h with tracks := h.tracks.step hstep, forwarded := fun m hm => ?_ }
  have hfits := h.forwarded m hm
  exact ⟨hfits.before.trans (PeerWatch.events_of_step hstep), hfits.assigned, hfits.shown⟩

/-- A resolution to a directory was asked for by an accept. -/
theorem accept_of_resolveDecision {dirs : Directories} {accept : Bool} {downloadDir : Option String}
    {dir : String} (h : resolveDecision dirs accept downloadDir = .ok (.accept dir)) :
    accept = true ∧ (downloadDir = some dir ∨ downloadDir = none) := by
  unfold resolveDecision at h
  split at h
  · refine ⟨‹_›, ?_⟩
    cases downloadDir with
    | none => exact .inr rfl
    | some path =>
      left
      cases hmade : dirs.createDirAll path with
      | error e => simp [hmade, bind, Except.bind] at h
      | ok =>
        simp only [hmade, bind, Except.bind] at h
        split at h <;> cases h
        rfl
  · cases h

theorem resolved_of_step {desk desk' : Desk} {a : Desk.Action} {k : CallId} {id : Nat}
    {decision : OfferDecision} (hst : Desk.Step desk a (some (.resolved k id decision)) desk') :
    ∃ accept downloadDir dirs, a = .respond k id accept downloadDir dirs ∧
      resolveDecision dirs accept downloadDir = .ok decision := by
  generalize hevent : some (Desk.Event.resolved k id decision) = event at hst
  cases hst with
  | respond _ hdecision =>
    cases hevent
    exact ⟨_, _, _, rfl, hdecision⟩
  | _ => cases hevent

/-- A call of `respond_offer` passes on what an answer to a click passes to it. -/
theorem Sound.accepted_of_respond (h : s.Sound text) {k : CallId} {id : Nat} {accept : Bool}
    {downloadDir : Option String} {dirs : Directories} {dir : String}
    (hinvokes :
      Interface.invokes s.interface.page (.respond k id accept downloadDir dirs) = true)
    (hdecision : resolveDecision dirs accept downloadDir = .ok (.accept dir)) :
    s.Accepted k id dir := by
  obtain ⟨rfl, hdir⟩ := accept_of_resolveDecision hdecision
  have hclicked := h.answers k
  simp only [Interface.invokes] at hinvokes
  split at hinvokes
  · rename_i shown accept' downloadDir' hanswer
    obtain ⟨hid, rfl, rfl⟩ := of_decide_eq_true hinvokes
    refine ⟨.inl ⟨shown, true, downloadDir', hanswer⟩, ?_⟩
    rw [hanswer] at hclicked
    generalize s.clicks k = click at hclicked ⊢
    cases hclicked with
    | awaiting _ hmobile =>
      refine ⟨_, rfl, rfl, hid, hdir.imp_right fun hnone => ?_⟩
      exact ⟨hnone, hmobile rfl hnone⟩
  · cases hinvokes

/-- A step of the process; `forwarded` are the offers that are recorded now. -/
theorem Sound.desk (h : s.Sound text) {a : Desk.Action} {desk : Desk} {events : List PageEvent}
    {forwarded : List Forwarded} (hinvokes : Interface.invokes s.interface.page a = true)
    (hdesk : s.interface.desk.step a = some desk) (hkeeps : ∀ m ∈ s.forwarded, m ∈ forwarded)
    (hnew : ∀ m ∈ forwarded, m ∈ s.forwarded ∨ Fits { s with
      interface := { s.interface with desk, events }
      log := (s.interface.desk.event a).toList ++ s.log } m)
    (hviews : ∀ view ∈ Interface.views { s.interface with desk, events },
      ∃ m ∈ forwarded, m.view = view) :
    Sound text { s with
      interface := { s.interface with desk, events }
      log := (s.interface.desk.event a).toList ++ s.log
      forwarded } := by
  have hst := Desk.step_spec hdesk
  refine {
    tracks := h.tracks
    logged := .step h.logged trivial (Machine.logged_step_iff.mpr ⟨hdesk, rfl⟩)
    forwarded := fun m hm => ?_
    views := hviews
    clicks := fun k click hk => ?_
    answers := h.answers
    mobile := h.mobile
    fetched := h.fetched
    accepted := fun k id dir hmem => ?_ }
  · rcases hnew m hm with hold | hfits
    · obtain ⟨hbefore, hassigned, handler, hh, hname, hsize, hsender⟩ := h.forwarded m hold
      obtain ⟨handler', hh', hfollows⟩ := hst.follows hh
      refine ⟨hbefore, List.mem_append_right _ hassigned, handler', hh', ?_⟩
      rw [hfollows.offer]
      exact ⟨hname, hsize, hsender⟩
    · exact ⟨hfits.before, hfits.assigned, hfits.shown⟩
  · obtain ⟨m, hm, heq⟩ := h.clicks k click hk
    exact ⟨m, hkeeps m hm, heq⟩
  · rcases List.mem_append.mp hmem with hmem | hmem
    · rw [Option.mem_toList.mp hmem] at hst
      obtain ⟨accept, downloadDir, dirs, rfl, hdecision⟩ := resolved_of_step hst
      exact h.accepted_of_respond hinvokes hdecision
    · exact h.accepted k id dir hmem

/-- A step of the page, which changes the answer and the click `k` at most. -/
theorem Sound.page (h : s.Sound text) {page : Page} {events : List PageEvent}
    {clicks : CallId → Option Click} (k : CallId)
    (hviews : ∀ view ∈ Interface.views { s.interface with page, events },
      view ∈ s.interface.views)
    (hothers : ∀ j, j ≠ k → page.answers j = s.interface.page.answers j ∧ clicks j = s.clicks j)
    (hk : Clicked s.interface.mobile (page.answers k) (clicks k))
    (hknown : ∀ click, clicks k = some click → s.Known click.shown)
    (haccepted : ∀ id dir, s.Accepted k id dir → Accepted { s with
      interface := { s.interface with page, events }
      clicks } k id dir)
    (hmobile : page.mobile = true → s.interface.mobile = true)
    (hfetched : ∀ mobile incomingOffer,
      page.startUp = .fetched mobile incomingOffer → mobile = s.interface.mobile) :
    Sound text { s with interface := { s.interface with page, events }, clicks } := by
  refine {
    tracks := h.tracks
    logged := h.logged
    forwarded := fun m hm => ⟨(h.forwarded m hm).before, (h.forwarded m hm).assigned,
      (h.forwarded m hm).shown⟩
    views := fun view hview => h.views view (hviews view hview)
    clicks := fun j click hj => ?_
    answers := fun j => ?_
    mobile := hmobile
    fetched := hfetched
    accepted := fun j id dir hmem => ?_ }
  · by_cases heq : j = k
    · subst heq
      exact hknown click hj
    · exact h.clicks j click ((hothers j heq).2.symm.trans hj)
  · by_cases heq : j = k
    · subst heq
      exact hk
    · show Clicked s.interface.mobile (page.answers j) (clicks j)
      rw [(hothers j heq).1, (hothers j heq).2]
      exact h.answers j
  · have hold := h.accepted j id dir hmem
    by_cases heq : j = k
    · subst heq
      exact haccepted id dir hold
    · simp only [Accepted] at hold ⊢
      rwa [(hothers j heq).1, (hothers j heq).2]

/-- A step of the page that leaves the answers alone. -/
theorem Sound.unanswered (h : s.Sound text) {page : Page} {events : List PageEvent}
    (hviews : ∀ view ∈ Interface.views { s.interface with page, events },
      view ∈ s.interface.views)
    (hanswers : page.answers = s.interface.page.answers)
    (hmobile : page.mobile = true → s.interface.mobile = true)
    (hfetched : ∀ mobile incomingOffer,
      page.startUp = .fetched mobile incomingOffer → mobile = s.interface.mobile) :
    Sound text { s with interface := { s.interface with page, events } } := by
  refine h.page 0 hviews (fun j _ => ⟨congrFun hanswers j, rfl⟩) ?_ (h.clicks 0)
    (fun id dir haccepted => ?_) hmobile hfetched
  · rw [hanswers]
    exact h.answers 0
  · simp only [Accepted] at haccepted ⊢
    rwa [hanswers]

/-- A call that has been answered is neither made nor in the directory dialog. -/
theorem Accepted.of_answer {k : CallId} {id : Nat} {dir : String} (h : s.Accepted k id dir) :
    s.interface.page.answers k ≠ .none ∧
      ∀ shown, s.interface.page.answers k ≠ .choosing shown := by
  rcases h.1 with ⟨_, _, _, hanswer⟩ | hanswer <;> rw [hanswer] <;> exact ⟨nofun, nofun⟩

/-- The answer `k`, which has not come to `respond_offer`, changes with its click. -/
theorem Sound.setAnswer (h : s.Sound text) {k : CallId} {answer : Answer} {click : Option Click}
    (offerError : String)
    (hk : s.interface.page.answers k = .none ∨
      ∃ shown, s.interface.page.answers k = .choosing shown)
    (hclicked : Clicked s.interface.mobile answer click)
    (hknown : ∀ click', click = some click' → s.Known click'.shown) :
    Sound text { s with
      interface := { s.interface with
        page := { s.interface.page.setAnswer k answer with offerError } }
      clicks := Function.update s.clicks k click } := by
  refine h.page k (fun _ => id) (fun j hne => ⟨Function.update_of_ne hne .., ?_⟩) ?_
    (fun click' hclick' => hknown click' ?_) (fun id dir haccepted => ?_) h.mobile h.fetched
  · exact Function.update_of_ne hne ..
  · show Clicked s.interface.mobile (Function.update s.interface.page.answers k answer k) _
    rwa [Function.update_self, Function.update_self]
  · rwa [Function.update_self] at hclick'
  · obtain ⟨hnone, hchoosing⟩ := haccepted.of_answer
    rcases hk with hk | ⟨shown, hk⟩
    · exact absurd hk hnone
    · exact absurd hk (hchoosing shown)

/-- A click on the dialog. -/
theorem Sound.answered (h : s.Sound text) {k : CallId} (accept : Bool)
    (hk : s.interface.page.answers k = .none) :
    Sound text { s with
      interface := { s.interface with page := s.interface.page.answerOffer k accept }
      clicks := s.clicked (.answer k accept) } := by
  cases hshown : s.interface.page.incomingOffer with
  | none =>
    have hsame := h.setAnswer s.interface.page.offerError (.inl hk)
      (.finished (s.clicks k)) (h.clicks k)
    simp only [clicked, Page.answerOffer, hshown]
    rwa [Function.update_eq_self] at hsame
  | some shown =>
    have hknown : s.Known shown :=
      h.views shown (Interface.mem_views.mpr (.inr (.inr (.inr hshown))))
    simp only [clicked, Page.answerOffer, hshown]
    split
    · rename_i hdesktop
      obtain ⟨rfl, -⟩ := (Bool.and_eq_true ..).mp hdesktop
      refine h.setAnswer s.interface.page.offerError (.inl hk) (.choosing shown) ?_
      rintro _ ⟨⟩
      exact hknown
    · rename_i hmobile
      refine h.setAnswer s.interface.page.offerError (.inl hk) (.awaiting shown ?_) ?_
      · rintro rfl -
        exact h.mobile (by simpa using hmobile)
      · rintro _ ⟨⟩
        exact hknown

/-- The end of the directory dialog. -/
theorem Sound.chosen (h : s.Sound text) {k : CallId} {shown : IncomingOffer}
    (choice : Except String (Option String)) (hk : s.interface.page.answers k = .choosing shown) :
    Sound text { s with
      interface := { s.interface with page := s.interface.page.chosen k shown choice }
      clicks := s.clicked (.choose k choice) } := by
  have hover (offerError : String) :
      Sound text { s with
        interface := { s.interface with
          page := { s.interface.page.setAnswer k .finished with offerError } } } := by
    have hsame := h.setAnswer offerError (.inr ⟨shown, hk⟩) (.finished (s.clicks k)) (h.clicks k)
    rwa [Function.update_eq_self] at hsame
  have hclicked := h.answers k
  rw [hk] at hclicked
  cases choice with
  | error error => exact hover error
  | ok path =>
    cases path with
    | none => exact hover _
    | some dir =>
      have hknown := h.clicks k
      simp only [clicked, Page.chosen]
      generalize s.clicks k = click at hclicked hknown ⊢
      cases hclicked with
      | choosing =>
        have hshown : s.Known shown := hknown _ rfl
        split
        · refine h.setAnswer s.interface.page.offerError (.inr ⟨shown, hk⟩) (.finished _) ?_
          rintro _ ⟨⟩
          exact hshown
        · refine h.setAnswer s.interface.page.offerError (.inr ⟨shown, hk⟩)
            (.awaiting shown nofun) ?_
          rintro _ ⟨⟩
          exact hshown

theorem Sound.process (h : s.Sound text) {a : Interface.Action} {interface : Interface}
    (ha : receives a = false) (hst : s.interface.step a = some interface) :
    Sound text { s with
      interface
      log := (event s.interface a).toList ++ s.log
      clicks := s.clicked a } := by
  have hstep := Interface.step_spec hst
  have hviews : ∀ view ∈ interface.views, view ∈ s.interface.views := by
    intro view hview
    rcases Interface.views_step hstep hview with hold | ⟨⟨peers, rfl⟩, -⟩
    · exact hold
    · cases ha
  cases hstep with
  | desk hinvokes hdesk =>
    exact h.desk hinvokes hdesk (fun _ => id) (fun _ => .inl) fun view hview =>
      h.views view (hviews view hview)
  | connect => exact h.unanswered hviews rfl h.mobile nofun
  | fetch =>
    refine h.unanswered hviews rfl h.mobile ?_
    rintro mobile incomingOffer ⟨⟩
    rfl
  | @complete mobile incomingOffer hfetched =>
    refine h.unanswered hviews (Page.started_answers ..) (fun hmobile => ?_) ?_
    · have hsame : (s.interface.page.started mobile incomingOffer).mobile = mobile := by
        cases incomingOffer <;> rfl
      rw [← h.fetched mobile incomingOffer hfetched]
      exact hsame.symm.trans hmobile
    · rw [Page.started_startUp]
      nofun
  | @deliver event events =>
    refine h.unanswered hviews (Page.listen_answers _) (fun hmobile => h.mobile ?_) ?_
    · cases event with
      | incomingOffer view => exact hmobile
      | offerExpired id =>
        simp only [Page.listen] at hmobile
        split at hmobile <;> exact hmobile
    · rw [Page.listen_startUp]
      exact h.fetched
  | @answer k accept hk => exact h.answered accept hk
  | @choose k offer choice hk => exact h.chosen choice hk
  | @respond k offer accept downloadDir result hk =>
    refine h.page k hviews (fun j hne => ?_) ?_ (h.clicks k) (fun id dir haccepted => ?_) ?_ ?_
    · rw [Page.responded_answers, Function.update_of_ne hne]
      exact ⟨rfl, rfl⟩
    · rw [Page.responded_answers, Function.update_self]
      exact .finished _
    · refine ⟨.inr ?_, haccepted.2⟩
      exact (congrFun (Page.responded_answers ..) k).trans (Function.update_self ..)
    · intro hmobile
      refine h.mobile ?_
      cases result <;> exact hmobile
    · rw [Page.responded_startUp]
      exact h.fetched

theorem Sound.recv (h : s.Sound text) {interface : Interface}
    (hst : s.interface.step (.desk (.recv s.peers)) = some interface) :
    Sound text { s with
      interface
      log := (s.interface.desk.event (.recv s.peers)).toList ++ s.log
      forwarded := s.takenUp interface.desk.forwarder ++ s.forwarded } := by
  have hstep := Interface.step_spec hst
  have hviews : ∀ view ∈ interface.views, ∃ m ∈ s.takenUp interface.desk.forwarder ++ s.forwarded,
      m.view = view := by
    intro view hview
    rcases Interface.views_step hstep hview with hold | ⟨-, p, hforwarder, heq⟩
    · obtain ⟨m, hm, heq⟩ := h.views view hold
      exact ⟨m, List.mem_append_right _ hm, heq⟩
    · rw [hforwarder]
      exact ⟨_, List.mem_append_left _ (List.mem_singleton_self _), heq⟩
  cases hstep with
  | desk hinvokes hdesk =>
    refine h.desk hinvokes hdesk (fun m hm => List.mem_append_right _ hm) (fun m hm => ?_) hviews
    refine (List.mem_append.mp hm).symm.imp_right fun hm => ?_
    have hst := Desk.step_spec hdesk
    generalize s.interface.desk.event (.recv s.peers) = event at hst ⊢
    cases hst with
    | @recv _ request queue _ hqueue _ =>
      obtain rfl := List.mem_singleton.mp hm
      obtain ⟨-, handler, hh, -, hoffer⟩ :=
        (Desk.tracked h.logged).senders.queued (hqueue ▸ List.mem_cons_self)
      refine ⟨List.prefix_refl _, List.mem_cons_self, handler, hh, ?_⟩
      rw [hoffer]
      exact ⟨rfl, rfl, senderName_eq h.tracks _⟩
    | overflow => cases hm

theorem reachable_sound (hs : (machine text).Reachable s) : s.Sound text := by
  refine hs.invariant (I := Sound text) ?_ ?_
  · rintro s ⟨mobile, rfl⟩
    exact {
      tracks := PeerWatch.reachable_tracks (.init rfl)
      logged := .init ⟨rfl, rfl⟩
      forwarded := nofun
      views := nofun
      clicks := nofun
      answers := fun _ => .none
      mobile := nofun
      fetched := nofun
      accepted := nofun }
  · intro s a s' _ h _ hst
    cases a with
    | watch a =>
      obtain ⟨watch, hwatch, rfl⟩ := Option.map_eq_some_iff.mp hst
      exact h.watch hwatch
    | recv =>
      obtain ⟨interface, hrecv, rfl⟩ := Option.map_eq_some_iff.mp hst
      exact h.recv hrecv
    | process a =>
      simp only [machine, step] at hst
      split at hst
      · cases hst
      · obtain ⟨interface, hprocess, rfl⟩ := Option.map_eq_some_iff.mp hst
        exact h.process (Bool.not_eq_true _ ▸ ‹_›) hprocess

/-- The connection of a handler is on its trail. -/
theorem connected_mem_trail {desk : Desk} {log : List Desk.Event} {h : HandlerId}
    {handler : Handler} (hs : Desk.HandlersTracked desk log) (hh : desk.handlers h = some handler) :
    .connected h handler.remote handler.offer ∈ Desk.handlerTrail log h := by
  have hstory := hs.story hh
  unfold Desk.HandlerStory at hstory
  cases hphase : handler.phase <;> simp only [hphase] at hstory
  case declining => rcases hstory with hstory | hstory <;> rw [hstory] <;> simp
  case failed => rcases hstory with hstory | ⟨dir, hstory⟩ <;> rw [hstory] <;> simp
  all_goals
    rw [hstory]
    simp

/-- What is behind a download of handler `h`: the click `click` in the call `k` of
`answerOffer`, when the dialog showed what `forward_offers` had made of the offer of `h`
when it took that up, and called the sender as it was announced in `before`, the events
that `discover` had taken at that moment. -/
structure Behind (s : OfferSeen) (h : HandlerId) (dir : String) (offer : Offer) (k : CallId)
    (click : Click) (before : List DiscoveryEvent) : Prop where
  clicked : s.clicks k = some click ∧ click.accept = true
  once : Desk.Event.startedBy s.log k (.download h dir offer) = true ∧
    s.log.countP (Desk.Event.startedBy s.log k) ≤ 1
  shown : click.shown.filename = offer.filename ∧ click.shown.filesize = offer.filesize
  taken : ⟨h, click.shown, before⟩ ∈ s.forwarded
  earlier : before <+: s.watch.events
  sender : ∃ remote, .connected h remote offer ∈ s.log ∧
    click.shown.sender = nameBefore before remote ∧
    ∀ host, download host dir offer = download (host.onlyFrom offer.ticket.hash remote) dir offer
  directory : click.downloadDir = some dir ∨
    click.downloadDir = none ∧ s.interface.mobile = true

/-- **What is accepted is what is loaded, from whom it was said to come.**  Behind every
download there is one click on the dialog, which is behind no other download.  The dialog
showed the name and the size of the offer, and for its sender the name last announced by
the endpoint at the other end of the connection when the offer was taken up, if there was
one; nobody but this endpoint is asked for the file.  It goes where the user then chose, or
on a phone, where nothing is chosen. -/
theorem downloads_as_shown (hs : (machine text).Reachable s) {h : HandlerId} {dir : String}
    {offer : Offer} (hdownload : .download h dir offer ∈ s.log) :
    ∃ k click before, s.Behind h dir offer k click before := by
  have hsound := reachable_sound hs
  have ht := Desk.tracked hsound.logged
  obtain ⟨post, pre, hlog⟩ := List.append_of_mem hdownload
  obtain ⟨⟨k, id, hresolved, hassigned, hretired⟩, hconnected⟩ :=
    Desk.before_download hsound.logged hlog
  have hpre : ∀ {e}, e ∈ pre → e ∈ s.log := by
    intro e he
    simp [hlog, he]
  obtain ⟨-, click, hclick, haccept, rfl, hdir⟩ := hsound.accepted k id dir (hpre hresolved)
  obtain ⟨m, hm, hview⟩ := hsound.clicks k click hclick
  obtain ⟨hbefore, hassigned', handler, hh, hname, hsize, hsender⟩ := hsound.forwarded m hm
  rw [hview] at hname hsize hsender hassigned'
  -- the number in the dialog leads back to the handler, and the handler to its one offer
  obtain hsame : m.handler = h := ht.senders.unique hassigned' (hpre hassigned)
  have hoffer : handler.offer = offer := by
    obtain ⟨remote, htrail⟩ := ht.handlers.trail_of_download hdownload
    have hmem := connected_mem_trail ht.handlers hh
    rw [hsame, htrail] at hmem
    simp only [List.mem_cons, reduceCtorEq, Desk.Event.connected.injEq, List.not_mem_nil,
      or_false, false_or] at hmem
    exact hmem.2.2
  rw [hoffer] at hname hsize hsender
  have htaken : (⟨h, click.shown, m.before⟩ : Forwarded) ∈ s.forwarded := by
    rw [← hsame, ← hview]
    exact hm
  exact ⟨k, click, m.before, {
    clicked := ⟨hclick, haccept⟩
    once := ⟨Desk.startedBy_iff.mpr ⟨h, dir, offer, rfl, _, hpre hretired⟩, ht.startedBy_le_one k⟩
    shown := ⟨hname, hsize⟩
    taken := htaken
    earlier := hbefore
    sender := ⟨_, hpre hconnected, hsender, fun host => download_onlyFrom host ..⟩
    directory := hdir }⟩

/-- Anna is announced and offers a file, which is accepted after she has left. -/
def seenRun : List Action :=
  let anna : EndpointInfo := ⟨⟨1⟩, some ⟨"anna"⟩, ["a"]⟩
  [.watch (.event (.discovered anna) [(⟨"anna"⟩, ⟨⟨1⟩, ["a"]⟩)]),
    .process .connect, .process .fetch, .process .complete,
    .process (.desk (.connect 0 ⟨1⟩ Offer.sampleOffer)), .process (.desk (.enqueue 0)), .recv,
    .process (.desk .store), .process (.desk .emitIncoming), .process (.desk .enterWait),
    .process .deliver, .watch (.event (.expired ⟨1⟩) []), .process (.answer 7 true),
    .process (.choose 7 (.ok (some "/tmp"))),
    .process (.desk (.respond 7 1 true (some "/tmp") openDirectories)),
    .process (.desk (.take 7)), .process (.desk (.send 7)), .process (.desk (.notify 7)),
    .process (.desk (.decide 0)), .process (.desk (.download 0))]

theorem downloads_as_shown_left : ∃ s k click before,
    (machine PeerWatch.sampleText).exec { interface := .start false } seenRun = some s ∧
    s.Behind 0 "/tmp" Offer.sampleOffer k click before ∧
    announced s.watch.events ⟨1⟩ = none ∧
    (s.clicks 7).map (fun click => click.shown.sender) = some "anna" := by
  have hstart : (machine PeerWatch.sampleText).Reachable { interface := .start false } :=
    .init ⟨false, rfl⟩
  have hrun : (machine PeerWatch.sampleText).exec { interface := .start false } seenRun =
    some _ := rfl
  have hbehind : ∃ k click before, Behind _ 0 "/tmp" Offer.sampleOffer k click before :=
    downloads_as_shown (hstart.exec hrun) List.mem_cons_self
  obtain ⟨k, click, before, hbehind⟩ := hbehind
  exact ⟨_, k, click, before, hrun, hbehind, rfl, rfl⟩

end OfferSeen
end IrohShare
