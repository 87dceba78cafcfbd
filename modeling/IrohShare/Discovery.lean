import Mathlib.Data.List.AList
import IrohShare.Transition
import IrohShare.Watch
import IrohShare.Protocol

/-!
# The peer list

`discover` keeps a map of the peers that mDNS announces and sends its values on a watch
channel; `run` stores a first list of them for the page, and `forward_peers` stores and
emits a new one whenever the channel has changed.

A hash map yields its values in any order, another one after every change: the order is
part of the label of the step.  The text forms of an endpoint id and of an
`EndpointTicket` belong to `iroh`; `PeerText` stands for them.
-/
namespace IrohShare
open Transition

/-- The name that a device announces. -/
structure UserData where
  text : String
  deriving DecidableEq, Repr

structure EndpointInfo where
  endpointId : EndpointId
  userData : Option UserData
  addrs : List String
  deriving DecidableEq, Repr

def EndpointInfo.intoEndpointAddr (info : EndpointInfo) : EndpointAddr :=
  ⟨info.endpointId, info.addrs⟩

inductive DiscoveryEvent
  | discovered (endpointInfo : EndpointInfo)
  | expired (endpointId : EndpointId)
  | other
  deriving DecidableEq, Repr

/-- A peer as the page gets it. -/
structure Peer where
  id : String
  name : String
  ticket : String
  deriving DecidableEq, Repr

structure PeerText where
  endpointId : EndpointId → String
  endpointTicket : EndpointAddr → String

/-- `peer_list`. -/
def peerList (text : PeerText) (peers : List (UserData × EndpointAddr)) : List Peer :=
  peers.map fun (name, address) =>
    { id := text.endpointId address.id, name := name.text, ticket := text.endpointTicket address }

/-- The map of `discover`. -/
abbrev PeerMap : Type := AList (fun _ : EndpointId => UserData × EndpointAddr)

/-- What `discover` does with an event to its map; `none` if it sends nothing. -/
def PeerMap.onEvent (peers : PeerMap) : DiscoveryEvent → Option PeerMap
  | .discovered info =>
    info.userData.map fun name => peers.insert info.endpointId (name, info.intoEndpointAddr)
  | .expired id => some (peers.erase id)
  | .other => none

/-- The values of the map, in the order in which it holds them. -/
def PeerMap.values (peers : PeerMap) : List (UserData × EndpointAddr) :=
  peers.entries.map Sigma.snd

/-! ## What the list should be -/

/-- What an event says about an endpoint, if anything: that it is there under a name and
an address, or gone. -/
def DiscoveryEvent.tells (id : EndpointId) :
    DiscoveryEvent → Option (Option (UserData × EndpointAddr))
  | .discovered info =>
    if info.endpointId = id then
      info.userData.map fun name => some (name, info.intoEndpointAddr)
    else none
  | .expired gone => if gone = id then some none else none
  | .other => none

/-- What the most recent event about an endpoint says, if it says that it is there. -/
def announced (events : List DiscoveryEvent) (id : EndpointId) : Option (UserData × EndpointAddr) :=
  (events.filterMap (DiscoveryEvent.tells id)).getLast?.join

theorem announced_concat (events : List DiscoveryEvent) (e : DiscoveryEvent) (id : EndpointId) :
    announced (events ++ [e]) id = (e.tells id).getD (announced events id) := by
  rw [announced, List.filterMap_append, List.filterMap_cons, List.filterMap_nil]
  cases e.tells id with
  | none => rw [List.append_nil, announced, Option.getD_none]
  | some said => rw [List.getLast?_concat, Option.getD_some, Option.join_some]

theorem announced_id {events : List DiscoveryEvent} {id : EndpointId} {name : UserData}
    {addr : EndpointAddr} (h : announced events id = some (name, addr)) : addr.id = id := by
  have hlast := Option.join_eq_some_iff.mp h
  obtain ⟨e, -, htells⟩ := List.mem_filterMap.mp (List.mem_of_getLast? hlast)
  cases e with
  | discovered info =>
    simp only [DiscoveryEvent.tells] at htells
    split at htells
    · rename_i hid
      obtain ⟨_, -, heq⟩ := Option.map_eq_some_iff.mp htells
      cases heq
      exact hid
    · cases htells
  | expired gone =>
    simp only [DiscoveryEvent.tells] at htells
    split at htells <;> cases htells
  | other => cases htells

/-- One entry for each endpoint last announced as there, with what was announced, and no
other entry. -/
def Lists (text : PeerText) (events : List DiscoveryEvent) (peers : List Peer) : Prop :=
  ∃ live : List (EndpointId × UserData × EndpointAddr),
    (live.map Prod.fst).Nodup ∧
    (∀ id name addr, (id, name, addr) ∈ live ↔ announced events id = some (name, addr)) ∧
    peers = live.map fun (id, name, addr) =>
      { id := text.endpointId id, name := name.text, ticket := text.endpointTicket addr }

/-! ## The tasks -/

/-- Where the body of the loop of `forward_peers` is: outside, with the list before it is
stored, or before it is emitted. -/
inductive PeerBody
  | idle
  | taken (current : List Peer)
  | kept (current : List Peer)
  deriving DecidableEq, Repr

/-- `discover`, the channel and the interface behind it.  `events` are the events
`discover` has taken, oldest first; `stored` is `AppState.peers`, from when `run` makes
it; `emitted` are the payloads of the `peers` events, oldest first. -/
structure PeerWatch where
  events : List DiscoveryEvent := []
  peers : PeerMap := ∅
  channel : Watch.Channel (List (UserData × EndpointAddr)) := { value := [] }
  stored : Option (List Peer) := none
  spawned : Bool := false
  reader : Watch.Reader := {}
  body : PeerBody := .idle
  emitted : List (List Peer) := []

namespace PeerWatch

/-- The steps of `discover` (`event`, with the order of the values; `stop`, the end of
its stream), of `run` (`snapshot`, `spawn`) and of `forward_peers`. -/
inductive Action
  | event (e : DiscoveryEvent) (values : List (UserData × EndpointAddr))
  | stop
  | snapshot
  | spawn
  | wake
  | take
  | store
  | emit

def step (text : PeerText) (s : PeerWatch) : Action → Option PeerWatch
  | .event e values =>
    if s.channel.closed then none
    else
      match s.peers.onEvent e with
      | none => some { s with events := s.events ++ [e] }
      | some peers =>
        if values.Perm peers.values then
          some { s with events := s.events ++ [e], peers, channel := s.channel.send values }
        else none
  | .stop => if s.channel.closed then none else some { s with channel := s.channel.close }
  | .snapshot =>
    match s.stored with
    | none => some { s with stored := some (peerList text s.channel.value) }
    | some _ => none
  | .spawn => if s.stored.isSome && !s.spawned then some { s with spawned := true } else none
  | .wake =>
    if s.spawned then (s.reader.wake s.channel).map (fun reader => { s with reader }) else none
  | .take =>
    (s.reader.take s.channel).map fun (current, reader) =>
      { s with reader, body := .taken (peerList text current) }
  | .store =>
    match s.body with
    | .taken current => some { s with stored := some current, body := .kept current }
    | _ => none
  | .emit =>
    match s.body with
    | .kept current =>
      s.reader.resume.map fun reader =>
        { s with reader, body := .idle, emitted := s.emitted ++ [current] }
    | _ => none

def machine (text : PeerText) : Machine PeerWatch Action where
  init s := s = {}
  step := step text

/-! ### What a step can do -/

/-- The steps again, one constructor for each thing that can happen. -/
inductive Step (text : PeerText) (s : PeerWatch) : Action → PeerWatch → Prop
  | ignore {e : DiscoveryEvent} {values : List (UserData × EndpointAddr)} :
      s.peers.onEvent e = none →
      Step text s (.event e values) { s with events := s.events ++ [e] }
  | send {e : DiscoveryEvent} {values : List (UserData × EndpointAddr)} {peers : PeerMap} :
      s.channel.closed = false → s.peers.onEvent e = some peers → values.Perm peers.values →
      Step text s (.event e values)
        { s with events := s.events ++ [e], peers, channel := s.channel.send values }
  | stop : Step text s .stop { s with channel := s.channel.close }
  | snapshot : s.stored = none →
      Step text s .snapshot { s with stored := some (peerList text s.channel.value) }
  | spawn : Step text s .spawn { s with spawned := true }
  | wake {reader : Watch.Reader} : s.reader.wake s.channel = some reader →
      Step text s .wake { s with reader }
  | take {current : List (UserData × EndpointAddr)} {reader : Watch.Reader} :
      s.reader.take s.channel = some (current, reader) →
      Step text s .take { s with reader, body := .taken (peerList text current) }
  | store {current : List Peer} : s.body = .taken current →
      Step text s .store { s with stored := some current, body := .kept current }
  | emit {current : List Peer} {reader : Watch.Reader} : s.body = .kept current →
      s.reader.resume = some reader →
      Step text s .emit { s with reader, body := .idle, emitted := s.emitted ++ [current] }

theorem step_spec {text : PeerText} {s s' : PeerWatch} {a : Action}
    (hst : s.step text a = some s') : Step text s a s' := by
  cases a <;> simp only [step] at hst
  case event e values =>
    split at hst
    · cases hst
    rename_i hopen
    split at hst
    · cases hst
      exact .ignore ‹_›
    · split at hst <;> cases hst
      exact .send (Bool.not_eq_true _ ▸ hopen) ‹_› ‹_›
  case stop =>
    split at hst <;> cases hst
    exact .stop
  case snapshot =>
    split at hst <;> cases hst
    exact .snapshot ‹_›
  case spawn =>
    split at hst <;> cases hst
    exact .spawn
  case wake =>
    split at hst
    · obtain ⟨reader, hwake, rfl⟩ := Option.map_eq_some_iff.mp hst
      exact .wake hwake
    · cases hst
  case take =>
    obtain ⟨⟨current, reader⟩, htake, rfl⟩ := Option.map_eq_some_iff.mp hst
    exact .take htake
  case store =>
    split at hst <;> cases hst
    exact .store ‹_›
  case emit =>
    split at hst
    · obtain ⟨reader, hresume, rfl⟩ := Option.map_eq_some_iff.mp hst
      exact .emit ‹_› hresume
    · cases hst

end PeerWatch

/-! ## The map holds what was announced -/

theorem PeerMap.lookup_onEvent {peers peers' : PeerMap} {e : DiscoveryEvent}
    (h : peers.onEvent e = some peers') (id : EndpointId) :
    peers'.lookup id = (e.tells id).getD (peers.lookup id) := by
  cases e with
  | discovered info =>
    obtain ⟨name, hname, rfl⟩ := Option.map_eq_some_iff.mp h
    simp only [DiscoveryEvent.tells]
    by_cases hid : info.endpointId = id
    · rw [if_pos hid, hname, ← hid, AList.lookup_insert]
      rfl
    · rw [if_neg hid, AList.lookup_insert_ne (Ne.symm hid)]
      rfl
  | expired gone =>
    cases h
    simp only [DiscoveryEvent.tells]
    by_cases hid : gone = id
    · rw [if_pos hid, ← hid, AList.lookup_erase]
      rfl
    · rw [if_neg hid, AList.lookup_erase_ne (Ne.symm hid)]
      rfl
  | other => cases h

theorem PeerMap.tells_of_onEvent {peers : PeerMap} {e : DiscoveryEvent}
    (h : peers.onEvent e = none) (id : EndpointId) : e.tells id = none := by
  cases e with
  | discovered info =>
    have hname : info.userData = none := Option.map_eq_none_iff.mp h
    rw [DiscoveryEvent.tells, hname, Option.map_none, ite_self]
  | expired gone => cases h
  | other => rfl

/-- A list of the values of a map that holds what was announced lists it. -/
theorem lists_of_perm (text : PeerText) {events : List DiscoveryEvent} {peers : PeerMap}
    {values : List (UserData × EndpointAddr)}
    (hmap : ∀ id, peers.lookup id = announced events id) (hperm : values.Perm peers.values) :
    Lists text events (peerList text values) := by
  have hmem : ∀ {id v}, Sigma.mk id v ∈ peers.entries ↔ announced events id = some v := by
    intro id v
    rw [← hmap id]
    exact AList.mem_lookup_iff.symm
  refine ⟨values.map fun (name, addr) => (addr.id, name, addr), ?_, ?_, ?_⟩
  · have hkeys : peers.values.map (fun v => v.2.id) = peers.keys := by
      rw [PeerMap.values, List.map_map]
      exact List.map_congr_left fun ⟨id, name, addr⟩ he => announced_id (hmem.mp he)
    rw [List.map_map]
    refine (hperm.map _).nodup_iff.mpr ?_
    exact (congrArg List.Nodup hkeys).mpr peers.keys_nodup
  · intro id name addr
    rw [← hmem, List.mem_map]
    constructor
    · rintro ⟨⟨name', addr'⟩, hv, heq⟩
      cases heq
      obtain ⟨⟨id, _⟩, he, rfl⟩ := List.mem_map.mp (hperm.mem_iff.mp hv)
      exact announced_id (hmem.mp he) ▸ he
    · intro he
      have hid := announced_id (hmem.mp he)
      exact ⟨(name, addr), hperm.mem_iff.mpr (List.mem_map.mpr ⟨_, he, rfl⟩),
        congrArg (·, name, addr) hid⟩
  · rw [peerList, List.map_map]
    rfl

namespace PeerWatch

/-- The loop has seen the last version. -/
def CaughtUp (s : PeerWatch) : Prop := s.reader.seen = s.channel.version

/-- The map holds what was announced and the channel the values of the map.  A list made
by a loop that has seen the last version is made of these values. -/
structure Tracks (text : PeerText) (s : PeerWatch) : Prop where
  map : ∀ id, s.peers.lookup id = announced s.events id
  value : s.channel.value.Perm s.peers.values
  reader : s.reader.Ok s.channel 0
  working : s.reader.phase = .working ↔ s.body ≠ .idle
  taken : s.CaughtUp → ∀ l, s.body = .taken l ∨ s.body = .kept l →
    l = peerList text s.channel.value
  stored : s.CaughtUp → s.reader.phase ≠ .woken → (∀ l, s.body ≠ .taken l) →
    ∀ l, s.stored = some l → l = peerList text s.channel.value
  emitted : s.CaughtUp → s.reader.phase ≠ .woken → s.body = .idle →
    ∀ l, s.emitted.getLast? = some l → l = peerList text s.channel.value

variable {text : PeerText}

/-- The values on the channel are the announced peers, each once. -/
theorem Tracks.mem_value_iff {s : PeerWatch} (h : s.Tracks text) {name : UserData}
    {addr : EndpointAddr} :
    (name, addr) ∈ s.channel.value ↔ announced s.events addr.id = some (name, addr) := by
  have hmem : ∀ {id v}, Sigma.mk id v ∈ s.peers.entries ↔ announced s.events id = some v := by
    intro id v
    rw [← h.map id]
    exact AList.mem_lookup_iff.symm
  rw [h.value.mem_iff, PeerMap.values, List.mem_map]
  constructor
  · rintro ⟨⟨id, v⟩, he, rfl⟩
    obtain rfl := announced_id (hmem.mp he)
    exact hmem.mp he
  · exact fun he => ⟨⟨addr.id, name, addr⟩, hmem.mpr he, rfl⟩

theorem Tracks.nodup_value {s : PeerWatch} (h : s.Tracks text) :
    (s.channel.value.map fun device => device.2.id).Nodup := by
  have hkeys : s.peers.values.map (fun device => device.2.id) = s.peers.keys := by
    rw [PeerMap.values, List.map_map]
    refine List.map_congr_left fun ⟨id, name, addr⟩ he => ?_
    have hannounced : announced s.events id = some (name, addr) :=
      (h.map id).symm.trans (AList.mem_lookup_iff.mpr he)
    exact announced_id hannounced
  exact (h.value.map _).nodup_iff.mpr (hkeys ▸ s.peers.keys_nodup)

theorem Tracks.send {s : PeerWatch} (h : s.Tracks text) (hopen : s.channel.closed = false)
    {e : DiscoveryEvent} {peers : PeerMap} (hevent : s.peers.onEvent e = some peers)
    {values : List (UserData × EndpointAddr)} (hperm : values.Perm peers.values) :
    Tracks text
      { s with events := s.events ++ [e], peers, channel := s.channel.send values } := by
  have hbehind : ¬ CaughtUp
      { s with events := s.events ++ [e], peers, channel := s.channel.send values } := by
    have hle := h.reader.seen_le
    simp only [CaughtUp, Watch.Channel.send]
    omega
  refine ⟨fun id => ?_, hperm, h.reader.send hopen values, h.working,
    fun hup => absurd hup hbehind, fun hup => absurd hup hbehind, fun hup => absurd hup hbehind⟩
  rw [announced_concat, PeerMap.lookup_onEvent hevent, h.map id]

theorem events_of_step {s s' : PeerWatch} {a : Action} (hst : Step text s a s') :
    s.events <+: s'.events := by
  cases hst with
  | ignore | send => exact List.prefix_append _ _
  | _ => exact List.prefix_refl _

/-- Outside its body the loop is not at work. -/
theorem Tracks.idle_of_phase {s : PeerWatch} (h : s.Tracks text)
    (hphase : s.reader.phase ≠ .working) : s.body = .idle := by
  by_contra hne
  exact hphase (h.working.mpr hne)

theorem Tracks.step {s s' : PeerWatch} {a : Action} (h : s.Tracks text)
    (hst : Step text s a s') : s'.Tracks text := by
  cases hst with
  | ignore hevent =>
    refine ⟨fun id => ?_, h.value, h.reader, h.working, h.taken, h.stored, h.emitted⟩
    rw [announced_concat, PeerMap.tells_of_onEvent hevent, Option.getD_none]
    exact h.map id
  | send hopen hevent hperm => exact h.send hopen hevent hperm
  | stop => exact ⟨h.map, h.value, h.reader.close, h.working, h.taken, h.stored, h.emitted⟩
  | snapshot _ =>
    refine ⟨h.map, h.value, h.reader, h.working, h.taken, ?_, h.emitted⟩
    intro _ _ _ l hl
    exact (Option.some.inj hl).symm
  | spawn => exact ⟨h.map, h.value, h.reader, h.working, h.taken, h.stored, h.emitted⟩
  | @wake reader hwake =>
    have hok := h.reader.wake hwake
    obtain ⟨hphase, hcase⟩ := Watch.Reader.wake_spec hwake
    have hidle : s.body = .idle := h.idle_of_phase (by rw [hphase]; nofun)
    rcases hcase with ⟨-, rfl⟩ | ⟨-, rfl⟩
    · exact ⟨h.map, h.value, hok, iff_of_false nofun (not_not.mpr hidle),
        fun _ l hl => by simp [hidle] at hl, fun _ hne => absurd rfl hne,
        fun _ hne => absurd rfl hne⟩
    · have hwoken : s.reader.phase ≠ .woken := by rw [hphase]; nofun
      exact ⟨h.map, h.value, hok, iff_of_false nofun (not_not.mpr hidle), h.taken,
        fun hup _ => h.stored hup hwoken, fun hup _ => h.emitted hup hwoken⟩
  | take htake =>
    have hok := (h.reader.take htake).2
    obtain ⟨-, rfl, rfl⟩ := Watch.Reader.take_spec htake
    refine ⟨h.map, h.value, hok, iff_of_true rfl nofun, ?_, ?_, nofun⟩
    · rintro _ l (hl | hl) <;> cases hl
      rfl
    · intro _ _ hne
      exact absurd rfl (hne _)
  | @store current hbody =>
    refine ⟨h.map, h.value, h.reader, iff_of_true (h.working.mpr (by rw [hbody]; nofun)) nofun,
      ?_, ?_, nofun⟩
    · rintro hup l (hl | hl) <;> cases hl
      exact h.taken hup current (.inl hbody)
    · intro hup _ _ l hl
      cases hl
      exact h.taken hup current (.inl hbody)
  | @emit current reader hbody hresume =>
    have hok := h.reader.resume hresume
    obtain ⟨hphase, rfl⟩ := Watch.Reader.resume_spec hresume
    refine ⟨h.map, h.value, hok, iff_of_false nofun (not_not.mpr rfl), ?_, ?_, ?_⟩
    · rintro _ l (hl | hl) <;> cases hl
    · intro hup _ _ l hl
      exact h.stored hup (by rw [hphase]; nofun) (by rw [hbody]; nofun) l hl
    · intro hup _ _ l hl
      rw [List.getLast?_concat] at hl
      cases hl
      exact h.taken hup current (.inr hbody)

theorem reachable_tracks {s : PeerWatch} (hs : (machine text).Reachable s) : s.Tracks text := by
  refine hs.invariant (I := Tracks text) ?_ ?_
  · rintro s rfl
    refine ⟨fun _ => rfl, .nil, .new (Nat.le_refl 0), iff_of_false nofun (not_not.mpr rfl), ?_,
      nofun, nofun⟩
    rintro _ l (hl | hl) <;> cases hl
  · intro s a s' _ htracks _ hst
    exact htracks.step (step_spec hst)

/-- **The peer list is the set of live named peers.**  When `forward_peers` has no unseen
version, and is not between the report of one and the store of its list, `AppState.peers`
lists the endpoints last announced as there, each once and as announced; so does the last
`peers` event when the loop is not in its body either. -/
theorem peers_listed {s : PeerWatch} (hs : (machine text).Reachable s) (hup : s.CaughtUp)
    (hwoken : s.reader.phase ≠ .woken) :
    ((∀ l, s.body ≠ .taken l) → ∀ peers, s.stored = some peers → Lists text s.events peers) ∧
    (s.body = .idle → ∀ peers, s.emitted.getLast? = some peers → Lists text s.events peers) := by
  have htracks := reachable_tracks hs
  have hlists := lists_of_perm text htracks.map htracks.value
  refine ⟨fun hbody peers hpeers => ?_, fun hbody peers hpeers => ?_⟩
  · rw [htracks.stored hup hwoken hbody peers hpeers]
    exact hlists
  · rw [htracks.emitted hup hwoken hbody peers hpeers]
    exact hlists

/-- The key as a numeral, and the first address. -/
def sampleText : PeerText where
  endpointId id := toString id.key
  endpointTicket addr := addr.addrs.headD ""

/-- Two peers before the interface starts; then one moves to another address and the
other leaves, both before `forward_peers` looks. -/
def coalescedRun : List Action :=
  let anna := UserData.mk "anna"
  let ben := UserData.mk "ben"
  [.event (.discovered ⟨⟨1⟩, some anna, ["a"]⟩) [(anna, ⟨⟨1⟩, ["a"]⟩)],
    .event (.discovered ⟨⟨2⟩, some ben, ["b"]⟩) [(anna, ⟨⟨1⟩, ["a"]⟩), (ben, ⟨⟨2⟩, ["b"]⟩)],
    .snapshot, .spawn,
    .event (.discovered ⟨⟨1⟩, some anna, ["c"]⟩) [(ben, ⟨⟨2⟩, ["b"]⟩), (anna, ⟨⟨1⟩, ["c"]⟩)],
    .event (.discovered ⟨⟨2⟩, none, ["d"]⟩) [],
    .event (.expired ⟨2⟩) [(anna, ⟨⟨1⟩, ["c"]⟩)],
    .wake, .take, .store, .emit]

theorem peers_listed_coalesced :
    ∃ s, (machine sampleText).exec {} coalescedRun = some s ∧
      s.emitted = [[⟨"1", "anna", "c"⟩]] ∧ s.stored = some [⟨"1", "anna", "c"⟩] ∧
      Lists sampleText s.events [⟨"1", "anna", "c"⟩] := by
  have hstart : (machine sampleText).Reachable {} := .init rfl
  have hs := hstart.exec (rfl : (machine sampleText).exec {} coalescedRun = some _)
  exact ⟨_, rfl, rfl, rfl, (peers_listed hs rfl nofun).1 nofun _ rfl⟩

end PeerWatch
end IrohShare
