import IrohShare.SendWindow

/-!
# To whom a file goes

A file goes to the ticket of `state.selectedPeer`, which the page has from a list that the
user has clicked on, or from a ticket that the user has typed.  A list reaches the page in
an event or in the response of `initial_state`, and may be out of date when it is clicked;
what stands on it was announced all the same.

The proof follows a peer on its way.  The channel of `discover` has the devices announced
last (`PeerWatch.Tracks`); the task behind it takes that list, stores it and emits it
(`Traced`); the page reads it from the process or hears of it, and draws it (`Sources`); and
a click on what is drawn selects a peer of the list.  A ticket that is typed is decoded by
`validate_ticket`, which makes a peer of it.  Whoever is selected is one of the two
(`Known`).

An invocation of `send_file` comes right after a `render`, in the same turn: the peer it
goes to is the one the header names (`Addressed`), even if the selection changes while the
file is being sent.
-/
namespace IrohShare
open Transition

/-- A peer as it was announced at some time. -/
def Genuine (text : PeerText) (events : List DiscoveryEvent) (peer : Peer) : Prop :=
  ∃ before name addr, before <+: events ∧ announced before addr.id = some (name, addr) ∧
    peer = { id := text.endpointId addr.id, name := name.text, ticket := text.endpointTicket addr }

/-- What was announced once was announced. -/
theorem Genuine.mono {text : PeerText} {events events' : List DiscoveryEvent} {peer : Peer}
    (h : Genuine text events peer) (hle : events <+: events') : Genuine text events' peer := by
  obtain ⟨before, name, addr, hbefore, hannounced, hpeer⟩ := h
  exact ⟨before, name, addr, hbefore.trans hle, hannounced, hpeer⟩

/-! ## The peer tasks -/

namespace PeerWatch
variable {text : PeerText} {s s' : PeerWatch} {a : Action}

/-- The lists on their way to the page have announced peers. -/
structure Traced (text : PeerText) (s : PeerWatch) : Prop where
  stored : ∀ l, s.stored = some l → ∀ peer ∈ l, Genuine text s.events peer
  body : ∀ l, s.body = .taken l ∨ s.body = .kept l → ∀ peer ∈ l, Genuine text s.events peer

/-- The list in the channel has announced devices. -/
theorem Tracks.genuine (h : s.Tracks text) :
    ∀ peer ∈ peerList text s.channel.value, Genuine text s.events peer := by
  intro peer hpeer
  obtain ⟨⟨name, addr⟩, hmem, rfl⟩ := List.mem_map.mp hpeer
  exact ⟨s.events, name, addr, List.prefix_refl _, h.mem_value_iff.mp hmem, rfl⟩

/-- The peer task stores and emits what it has taken from the channel. -/
theorem Traced.step (h : s.Traced text) (htracks : s.Tracks text) (hst : Step text s a s') :
    s'.Traced text := by
  have hle := events_of_step hst
  have hstored := fun l hl peer hpeer => (h.stored l hl peer hpeer).mono hle
  have hbody := fun l hl peer hpeer => (h.body l hl peer hpeer).mono hle
  cases hst with
  | ignore | send | stop | spawn | wake => exact ⟨hstored, hbody⟩
  | snapshot =>
    refine ⟨?_, hbody⟩
    rintro _ ⟨⟩
    exact htracks.genuine
  | take htake =>
    refine ⟨hstored, ?_⟩
    obtain ⟨-, rfl, -⟩ := Watch.Reader.take_spec htake
    rintro l (hl | hl) <;> cases hl
    exact htracks.genuine
  | store hcurrent =>
    refine ⟨?_, ?_⟩
    · rintro _ ⟨⟩
      exact hbody _ (.inl hcurrent)
    · rintro l (hl | hl) <;> cases hl
      exact hbody _ (.inl hcurrent)
  | emit =>
    refine ⟨hstored, ?_⟩
    rintro l (hl | hl) <;> cases hl

/-- A `peers` event has announced peers. -/
theorem Traced.emitted (h : s.Traced text) (a : Action) :
    ∀ l ∈ PageStart.emittedPeers s a, ∀ peer ∈ l, Genuine text s.events peer := by
  intro l hl
  unfold PageStart.emittedPeers at hl
  split at hl
  · split at hl
    · rename_i hkept
      obtain rfl := List.mem_singleton.mp hl
      exact h.body _ (.inr hkept)
    · cases hl
  · cases hl

end PeerWatch

/-! ## The lists of the page -/

namespace SendWindow
variable {text : PeerText} {decode : String → Option EndpointAddr} {device : Device}
  {typeError : String → String} {s s' : SendWindow} {a : Action}

/-- Every peer that the page has or shows on a list was announced. -/
structure Sources (text : PeerText) (s : SendWindow) : Prop where
  tracks : s.watch.Tracks text
  traced : s.watch.Traced text
  inFlight : ∀ l ∈ s.inFlight, ∀ peer ∈ l, Genuine text s.watch.events peer
  peersRead : ∀ l, s.peersRead = some l → ∀ peer ∈ l, Genuine text s.watch.events peer
  peers : ∀ peer ∈ s.peers, Genuine text s.watch.events peer
  offered : ∀ peer, s.offers peer = true → Genuine text s.watch.events peer

/-- What `render` offers is on the list of the page. -/
theorem mem_of_offers {view : View} (hshown : s.shown = some (renderView view)) {peer : Peer}
    (h : s.offers peer = true) : peer ∈ view.peers := by
  rw [offers, hshown] at h
  simp only [Option.any_some, renderView] at h
  split at h
  · rename_i hcontent
    split at hcontent
    · unfold renderReceive at hcontent
      split at hcontent <;> cases hcontent
    · unfold renderPeers at hcontent
      split at hcontent <;> cases hcontent
      simpa using h
    · cases hcontent
    · unfold renderTransfer at hcontent
      split at hcontent <;> cases hcontent
  · cases h

/-- A step that leaves the lists alone; it may render. -/
structure SameLists (s s' : SendWindow) : Prop where
  watch : s'.watch = s.watch
  inFlight : s'.inFlight = s.inFlight
  peersRead : s'.peersRead = s.peersRead
  peers : s'.peers = s.peers
  shown : s'.shown = s.shown ∨
    ∃ view : View, s'.shown = some (renderView view) ∧ view.peers = s.peers

/-- The `finally` of a call renders at most. -/
theorem SameLists.cleanUp (h : SameLists s s') (k : Nat) : SameLists s (s'.cleanUp k) := by
  unfold SendWindow.cleanUp
  split
  · exact ⟨h.watch, h.inFlight, h.peersRead, h.peers, h.shown⟩
  · exact ⟨h.watch, h.inFlight, h.peersRead, h.peers, .inr ⟨s'.view, rfl, h.peers⟩⟩

/-- So does the way to the invocation. -/
theorem SameLists.materialized {page : SendPage} {k : Nat} {staging : Staging}
    {selected : Except String String} :
    SameLists s ((s.setStaging k staging).materialized k selected page) := by
  unfold SendWindow.materialized
  split
  · refine SameLists.cleanUp (s := s) ?_ k
    exact ⟨rfl, rfl, rfl, rfl, .inl rfl⟩
  · dsimp only
    split
    · exact ⟨rfl, rfl, rfl, rfl, .inr ⟨_, rfl, rfl⟩⟩
    · refine SameLists.cleanUp (s := s) ?_ k
      exact ⟨rfl, rfl, rfl, rfl, .inr ⟨_, rfl, rfl⟩⟩

/-- A step that renders draws the list it has. -/
theorem Sources.same (h : Sources text s) (hsame : SameLists s s') : Sources text s' := by
  obtain ⟨hwatch, hinFlight, hpeersRead, hpeers, hshown⟩ := hsame
  refine ⟨hwatch ▸ h.tracks, hwatch ▸ h.traced, ?_, ?_, ?_, ?_⟩ <;> rw [hwatch]
  · rw [hinFlight]
    exact h.inFlight
  · rw [hpeersRead]
    exact h.peersRead
  · rw [hpeers]
    exact h.peers
  · intro peer hpeer
    rcases hshown with hshown | ⟨view, hshown, hview⟩
    · refine h.offered peer ?_
      rwa [offers, hshown] at hpeer
    · exact h.peers peer (hview ▸ mem_of_offers hshown hpeer)

/-- **Every list of the page has announced peers**: they come with the response of
`initial_state` or with an event, and both have them from the peer task. -/
theorem Sources.step (h : Sources text s) (hst : Step text decode device typeError s a s') :
    Sources text s' := by
  cases hst with
  | watch hwatch =>
    have hstep := PeerWatch.step_spec hwatch
    have hle := PeerWatch.events_of_step hstep
    refine ⟨h.tracks.step hstep, h.traced.step h.tracks hstep, ?_,
      fun l hl peer hpeer => (h.peersRead l hl peer hpeer).mono hle,
      fun peer hpeer => (h.peers peer hpeer).mono hle,
      fun peer hpeer => (h.offered peer hpeer).mono hle⟩
    intro l hl peer hpeer
    refine Genuine.mono ?_ hle
    dsimp only at hl
    split at hl
    · rcases List.mem_append.mp hl with hl | hl
      · exact h.inFlight l hl peer hpeer
      · exact h.traced.emitted _ l hl peer hpeer
    · exact h.inFlight l hl peer hpeer
  | readPeers hstored =>
    refine ⟨h.tracks, h.traced, h.inFlight, ?_, h.peers, h.offered⟩
    rintro _ ⟨⟩
    exact h.traced.stored _ hstored
  | start hread =>
    have hpeers := h.peersRead _ hread
    exact ⟨h.tracks, h.traced, h.inFlight, h.peersRead, hpeers,
      fun peer hpeer => hpeers peer (mem_of_offers rfl hpeer)⟩
  | deliverPeers hevents =>
    have hpeers := h.inFlight _ (hevents ▸ List.mem_cons_self)
    exact ⟨h.tracks, h.traced,
      fun l hl => h.inFlight l (hevents ▸ List.mem_cons_of_mem _ hl), h.peersRead, hpeers,
      fun peer hpeer => hpeers peer (mem_of_offers rfl hpeer)⟩
  | materialize => exact h.same .materialized
  | settle =>
    refine h.same (SameLists.cleanUp (s := s) ?_ _)
    exact ⟨rfl, rfl, rfl, rfl, .inl rfl⟩
  | listen | idle | choose | mkdir | process => exact h.same ⟨rfl, rfl, rfl, rfl, .inl rfl⟩
  | select | useTicket | leave | removed | deliver | receive =>
    exact h.same ⟨rfl, rfl, rfl, rfl, .inr ⟨_, rfl, rfl⟩⟩

/-! ## The invocations -/

/-- A peer from a list, or made of a ticket that was typed. -/
def Known (text : PeerText) (decode : String → Option EndpointAddr) (s : SendWindow) (peer : Peer) :
    Prop :=
  Genuine text s.watch.events peer ∨
    ∃ ticket ∈ s.entered, validateTicket text decode ticket = .ok peer

/-- An invocation has the ticket of the peer that the header names. -/
def Addressed (text : PeerText) (decode : String → Option EndpointAddr) (s : SendWindow)
    (invocation : Invocation) : Prop :=
  ∃ peer screen, Known text decode s peer ∧ invocation.targetTicket = peer.ticket ∧
    invocation.shown = some screen ∧ screen.header.title = "Sending" ∧
    screen.header.subtitle = s!"To “{Peer.name peer}”"

/-- Whom the page can send to: the peer that is selected is known, every invocation goes to the
peer its screen names, and behind every execution stands an invocation. -/
structure Targets (text : PeerText) (decode : String → Option EndpointAddr) (s : SendWindow) :
    Prop where
  selected : ∀ selected, s.page.selectedPeer = some selected → Known text decode s selected.peer
  invocations : ∀ k invocation, s.invocations k = some invocation →
    Addressed text decode s invocation
  executions : ∀ k, (s.page.executions k).isSome = true → (s.invocations k).isSome = true

/-- A peer that is known stays known. -/
theorem Known.mono {peer : Peer} (h : Known text decode s peer)
    (hevents : s.watch.events <+: s'.watch.events) (hentered : s.entered <+: s'.entered) :
    Known text decode s' peer := by
  rcases h with h | ⟨ticket, hticket, hpeer⟩
  · exact .inl (h.mono hevents)
  · exact .inr ⟨ticket, hentered.subset hticket, hpeer⟩

/-- A step without an invocation. -/
theorem Targets.uninvoked (h : Targets text decode s)
    (hevents : s.watch.events <+: s'.watch.events) (hentered : s.entered <+: s'.entered)
    (hselected : ∀ selected, s'.page.selectedPeer = some selected →
      s.page.selectedPeer = some selected ∨ Known text decode s' selected.peer)
    (hinvocations : s'.invocations = s.invocations)
    (hexecutions : ∀ k, (s'.page.executions k).isSome = true →
      (s.page.executions k).isSome = true) :
    Targets text decode s' := by
  refine ⟨fun selected hs => ?_, fun k invocation hk => ?_, fun k hk => ?_⟩
  · rcases hselected selected hs with hold | hknown
    · exact (h.selected selected hold).mono hevents hentered
    · exact hknown
  · obtain ⟨peer, screen, hknown, hrest⟩ := h.invocations k invocation (hinvocations ▸ hk)
    exact ⟨peer, screen, hknown.mono hevents hentered, hrest⟩
  · rw [hinvocations]
    exact h.executions k (hexecutions k hk)

/-- A step after which the same peer, or none, is selected. -/
theorem Targets.same (h : Targets text decode s) (hwatch : s'.watch = s.watch)
    (hentered : s'.entered = s.entered)
    (hselected : s'.page.selectedPeer = none ∨ s'.page.selectedPeer = s.page.selectedPeer)
    (hinvocations : s'.invocations = s.invocations)
    (hexecutions : s'.page.executions = s.page.executions) : Targets text decode s' := by
  refine h.uninvoked (hwatch ▸ List.prefix_refl _) (hentered ▸ List.prefix_refl _)
    (fun selected hs => .inl ?_) hinvocations (fun k hk => hexecutions ▸ hk)
  rcases hselected with hnone | hsame
  · rw [hnone] at hs
    cases hs
  · exact hsame ▸ hs

theorem Targets.cleanUp (h : Targets text decode s) (k : Nat) :
    Targets text decode (s.cleanUp k) := by
  obtain ⟨-, heq⟩ | ⟨-, heq⟩ := cleanUp_cases s k <;> rw [heq] <;>
    exact h.same rfl rfl (.inr rfl) rfl rfl

/-- The invocation of `send_file` takes the ticket of the peer that is selected, right behind a
`render` that names it. -/
theorem Targets.materialized (h : Targets text decode s) {k : Nat}
    {selected : Except String String} :
    Targets text decode (s.materialized k selected
      (SendPage.materialized typeError s.page k selected)) := by
  obtain ⟨peer, filename, hpeer, rfl, hpage⟩ | ⟨-, hpeer, hexecutions, error, hcalls⟩ :=
    SendPage.materialized_spec typeError s.page k selected
  · have hcall : (SendPage.materialized typeError s.page k (.ok filename)).calls k = .sending := by
      rw [hpage]
      exact SendPage.setCall_self ..
    have hsame : (SendPage.materialized typeError s.page k (.ok filename)).selectedPeer =
        s.page.selectedPeer := by
      rw [hpage]
      rfl
    rw [materialized_sent hcall (hsame.trans hpeer)]
    have hselected : ∀ selected, (SendPage.materialized typeError s.page k
        (.ok filename)).selectedPeer = some selected → Known text decode s selected.peer :=
      fun selected hs => h.selected selected (hsame ▸ hs)
    refine ⟨hselected, fun j invocation hj => ?_, fun j hj => ?_⟩
    · replace hj : Function.update s.invocations k _ j = some invocation := hj
      by_cases heq : j = k
      · subst heq
        rw [Function.update_self] at hj
        cases hj
        refine ⟨peer.peer, _, h.selected peer hpeer, rfl, rfl, ?_⟩
        simp only [renderView, setHeader, view, SendPage.create, hpeer, and_self]
      · rw [Function.update_of_ne heq] at hj
        exact h.invocations j invocation hj
    · by_cases heq : j = k
      · subst heq
        exact Option.isSome_iff_exists.mpr ⟨_, Function.update_self ..⟩
      · have hold : (s.page.executions j).isSome = true := by
          simpa [hpage, SendPage.setExecution, SendPage.setCall, SendPage.create, heq] using hj
        show (Function.update s.invocations k _ j).isSome = true
        rw [Function.update_of_ne heq]
        exact h.executions j hold
  · have hcall : (SendPage.materialized typeError s.page k selected).calls k ≠ .sending := by
      rw [hcalls, Function.update_self]
      exact SendPage.finished_ne_sending _
    obtain ⟨-, heq⟩ | ⟨filename, -, heq⟩ := materialized_over s selected hcall <;>
      rw [heq] <;> refine Targets.cleanUp ?_ k <;>
        exact h.same rfl rfl (.inr hpeer) rfl hexecutions

/-- **Every step keeps the invocations addressed.** -/
theorem Targets.step (h : Targets text decode s) (hsources : Sources text s)
    (hst : Step text decode device typeError s a s') : Targets text decode s' := by
  cases hst with
  | watch hwatch =>
    exact h.uninvoked (PeerWatch.events_of_step (PeerWatch.step_spec hwatch)) (List.prefix_refl _)
      (fun _ => .inl) rfl (fun _ => id)
  | deliverPeers =>
    obtain ⟨hpeer, hexecutions, -⟩ := SendPage.onPeers_spec _
    exact h.same rfl rfl hpeer rfl hexecutions
  | select hoffers =>
    refine h.uninvoked (List.prefix_refl _) (List.prefix_refl _) ?_ rfl (fun _ => id)
    rintro _ ⟨⟩
    exact .inr (.inl (hsources.offered _ hoffers))
  | useTicket hvalid =>
    refine h.uninvoked (List.prefix_refl _) (List.prefix_append _ _) ?_ rfl (fun _ => id)
    rintro _ ⟨⟩
    exact .inr (.inr ⟨_, List.mem_append_right _ (List.mem_singleton_self _), hvalid⟩)
  | leave hpeer => exact h.same rfl rfl hpeer rfl rfl
  | @materialize _ k _ staging =>
    have hstaging : Targets text decode (s.setStaging k staging) :=
      h.same rfl rfl (.inr rfl) rfl rfl
    exact hstaging.materialized
  | settle =>
    obtain ⟨hpeer, hexecutions, -⟩ := SendPage.settled_spec _ _ _ _
    refine Targets.cleanUp ?_ _
    exact h.same rfl rfl (.inr hpeer) rfl hexecutions
  | deliver =>
    exact h.same rfl rfl (.inr (SendPage.listen_selectedPeer _)) rfl
      (SendPage.listen_executions _).1
  | process ha hst =>
    obtain ⟨k, execution, execution', lock, events, hk, rfl, -⟩ := SendPage.process_spec ha hst
    refine h.uninvoked (List.prefix_refl _) (List.prefix_refl _) (fun _ => .inl) rfl
      (fun j hj => ?_)
    by_cases heq : j = k
    · rw [heq, hk]
      rfl
    · simpa [heq] using hj
  | listen | readPeers | start | idle | choose | mkdir | removed | receive =>
    exact h.same rfl rfl (.inr rfl) rfl rfl

/-- The lists and the invocations of a run. -/
theorem reachable_sources (hs : (machine text decode device typeError).Reachable s) :
    Sources text s ∧ Targets text decode s := by
  refine hs.invariant (I := fun s => Sources text s ∧ Targets text decode s) ?_ ?_
  · rintro s rfl
    refine ⟨⟨PeerWatch.reachable_tracks (.init rfl), ⟨nofun, ?_⟩, nofun, nofun, nofun, nofun⟩,
      ⟨nofun, nofun, nofun⟩⟩
    rintro l (hl | hl) <;> cases hl
  · intro s a s' _ ⟨hsources, htargets⟩ _ hst
    exact ⟨hsources.step (step_spec hst), htargets.step hsources (step_spec hst)⟩

/-- The ticket of an address is read back as that address. -/
def RoundTrips (text : PeerText) (decode : String → Option EndpointAddr) (addr : EndpointAddr) :
    Prop :=
  decodeTicket decode (text.endpointTicket addr) = some addr

/-- An address that was announced is one of an event. -/
theorem discovered_of_announced {events : List DiscoveryEvent} {id : EndpointId} {name : UserData}
    {addr : EndpointAddr} (h : announced events id = some (name, addr)) :
    ∃ info, .discovered info ∈ events ∧ info.intoEndpointAddr = addr := by
  obtain ⟨e, he, htells⟩ :=
    List.mem_filterMap.mp (List.mem_of_getLast? (Option.join_eq_some_iff.mp h))
  cases e with
  | discovered info =>
    simp only [DiscoveryEvent.tells] at htells
    split at htells
    · obtain ⟨_, -, heq⟩ := Option.map_eq_some_iff.mp htells
      cases heq
      exact ⟨info, he, rfl⟩
    · cases htells
  | expired gone =>
    simp only [DiscoveryEvent.tells] at htells
    split at htells <;> cases htells
  | other => cases htells

/-- The address of a known peer: its ticket is that of the address, which was announced
under its name or stands in a ticket that was typed. -/
theorem Known.address {peer : Peer} (h : Known text decode s peer)
    (hannounced : ∀ info, .discovered info ∈ s.watch.events →
      RoundTrips text decode info.intoEndpointAddr)
    (hentered : ∀ ticket ∈ s.entered, ∀ addr, decodeTicket decode ticket = some addr →
      RoundTrips text decode addr) :
    ∃ addr, decodeTicket decode peer.ticket = some addr ∧
      ((∃ before, before <+: s.watch.events ∧
          announced before addr.id = some (UserData.mk (Peer.name peer), addr)) ∨
        Peer.name peer = "Ticket device" ∧
          ∃ ticket ∈ s.entered, decodeTicket decode ticket = some addr) := by
  rcases h with ⟨before, name, addr, hbefore, hname, rfl⟩ | ⟨ticket, hmem, hvalid⟩
  · obtain ⟨info, hinfo, rfl⟩ := discovered_of_announced hname
    exact ⟨_, hannounced info (hbefore.subset hinfo), .inl ⟨before, hbefore, hname⟩⟩
  · unfold validateTicket at hvalid
    split at hvalid
    · rename_i addr haddr
      cases hvalid
      exact ⟨addr, hentered ticket hmem addr haddr, .inr ⟨rfl, ticket, hmem, haddr⟩⟩
    · cases hvalid

/-- **A file goes to the peer that is named.**  When `send_file` is invoked, the screen
says to whom; the address is the one that this peer had announced under that name, or that
of a ticket which the user has typed.  It is enough that the tickets of the addresses that
have come up are read back. -/
theorem sent_to_named (hs : (machine text decode device typeError).Reachable s)
    (hannounced : ∀ info, .discovered info ∈ s.watch.events →
      RoundTrips text decode info.intoEndpointAddr)
    (hentered : ∀ ticket ∈ s.entered, ∀ addr, decodeTicket decode ticket = some addr →
      RoundTrips text decode addr)
    {k : Nat} (hk : (s.page.executions k).isSome = true) :
    ∃ addr screen name, s.target decode k = some addr ∧
      (s.invocations k).bind Invocation.shown = some screen ∧
      screen.header.title = "Sending" ∧ screen.header.subtitle = s!"To “{name}”" ∧
      ((∃ before, before <+: s.watch.events ∧
          announced before addr.id = some (UserData.mk name, addr)) ∨
        name = "Ticket device" ∧ ∃ ticket ∈ s.entered, decodeTicket decode ticket = some addr) := by
  obtain ⟨-, htargets⟩ := reachable_sources hs
  obtain ⟨invocation, hinvocation⟩ := Option.isSome_iff_exists.mp (htargets.executions k hk)
  obtain ⟨peer, screen, hknown, hticket, hshown, htitle, hsubtitle⟩ :=
    htargets.invocations k invocation hinvocation
  obtain ⟨addr, haddr, hname⟩ := hknown.address hannounced hentered
  refine ⟨addr, screen, Peer.name peer, ?_, ?_, htitle, hsubtitle, hname⟩
  · rw [target, hinvocation, Option.bind_some, hticket]
    exact haddr
  · rw [hinvocation, Option.bind_some, hshown]

/-- Anna is announced, listed and clicked; she leaves before the file is chosen. -/
def namedRun : List Action :=
  let anna : EndpointInfo := ⟨⟨1⟩, some ⟨"anna"⟩, ["a"]⟩
  [.watch (.event (.discovered anna) [(⟨"anna"⟩, ⟨⟨1⟩, ["a"]⟩)]), .watch .snapshot, .listen,
    .readPeers, .start, .select ⟨"1", "anna", "a"⟩, .watch (.event (.expired ⟨1⟩) []),
    .choose 0 "/a.txt", .unstaged 0 (.ok "a.txt")]

theorem sent_to_named_left : ∃ s,
    (machine PeerWatch.sampleText sampleDecode ⟨"me", false⟩ id).exec {} namedRun = some s ∧
    announced s.watch.events ⟨1⟩ = none ∧
    ∃ addr screen, s.target sampleDecode 0 = some addr ∧
      (s.invocations 0).bind Invocation.shown = some screen ∧ screen.header.title = "Sending" := by
  have hstart : (machine PeerWatch.sampleText sampleDecode ⟨"me", false⟩ id).Reachable {} :=
    .init rfl
  have hrun : (machine PeerWatch.sampleText sampleDecode ⟨"me", false⟩ id).exec {} namedRun =
    some _ := rfl
  obtain ⟨addr, screen, -, haddr, hscreen, htitle, -⟩ := sent_to_named (k := 0) (hstart.exec hrun)
    (fun info hinfo => by
      replace hinfo : DiscoveryEvent.discovered info ∈
        [.discovered ⟨⟨1⟩, some ⟨"anna"⟩, ["a"]⟩, .expired ⟨1⟩] := hinfo
      have hanna : info = ⟨⟨1⟩, some ⟨"anna"⟩, ["a"]⟩ := by simpa using hinfo
      subst hanna
      exact (by decide : decodeTicket sampleDecode "a" = some ⟨⟨1⟩, ["a"]⟩))
    nofun rfl
  exact ⟨_, hrun, rfl, addr, screen, haddr, hscreen, htitle⟩

end SendWindow
end IrohShare
