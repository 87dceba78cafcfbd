import IrohShare.Approval
import IrohShare.Discovery
import IrohShare.LineInput
import IrohShare.Numeral

/-!
# Choosing a receiver at the terminal

`select_receiver` beside `discover`: it waits until somebody is listed, sleeps two
seconds, takes the list as it is then, prints it with numbers and reads a line.  The
list may change while the user types, and may be empty when it is taken.

The number is a `usize` of 64 bits.
-/
namespace IrohShare
open ByteStream LineInput Transition

/-! ## The screen and the choice -/

/-- The lines of the list. -/
def deviceLines (devices : List (UserData × EndpointAddr)) : List String :=
  devices.mapIdx fun i (userData, _) => s!"{i + 1}. {userData.text}"

def searchStr : String := "Searching in local net..."

def titleStr : String := "Receiver list."

/-- What is printed when the list is taken. -/
def deviceScreen (devices : List (UserData × EndpointAddr)) : List String :=
  let lines := deviceLines devices
  let maxLen := max (max ((lines.map String.utf8ByteSize).max?.getD 0) titleStr.utf8ByteSize)
    searchStr.utf8ByteSize
  let rule := String.ofList (List.replicate maxLen '-')
  ["", titleStr, rule] ++ lines ++ [rule, "", "Select receiver:"]

/-- The number of the text. -/
def parseSelection (input : String) : Option Nat :=
  Numeral.parse UInt64.size (Numeral.trim isWhiteSpace input.toList)

/-- `checked_sub`. -/
def checkedSub (n m : Nat) : Option Nat := if m ≤ n then some (n - m) else none

/-- What the line that was read chooses. -/
def chooseDevice (devices : List (UserData × EndpointAddr)) (input : String) :
    Except String EndpointAddr :=
  match parseSelection input with
  | none => .error "selection must be a number"
  | some idx =>
    match (checkedSub idx 1).bind (devices[·]?) with
    | none => .error "selection out of range"
    | some (_, endpointAddr) => .ok endpointAddr

/-! ## The run -/

/-- Where `select_receiver` is: in `wait_for`, in the pause behind it, reading the line,
or over. -/
inductive SelectPhase
  | searching (seen : Option Nat)
  | sleeping
  | reading (line : List UInt8)
  | ended (result : Except String EndpointAddr)

/-- The list as it was taken, and the events behind it. -/
structure Listing where
  events : List DiscoveryEvent
  devices : List (UserData × EndpointAddr)

/-- `select_receiver` and what it watches.  `typed` is the line once it is read. -/
structure Selection where
  watch : PeerWatch := {}
  phase : SelectPhase := .searching none
  listing : Option Listing := none
  typed : Option String := none

namespace Selection

/-- The condition of `wait_for`. -/
def somebody (devices : List (UserData × EndpointAddr)) : Bool := !devices.isEmpty

inductive Action
  | event (e : DiscoveryEvent) (values : List (UserData × EndpointAddr))
  | stop
  | look
  | wake
  | read (chunk : List UInt8)
  | readFails (error : String)

/-- Where a look leaves the call. -/
def afterLook (version : Nat) : Watch.Channel.Looked → SelectPhase
  | .found => .sleeping
  | .again => .searching (some version)
  | .failed => .ended (.error "device discovery stopped")

/-- One step of the process; `text` is what the interface would print. -/
def step (text : PeerText) (s : Selection) : Action → Option Selection
  | .event e values => (s.watch.step text (.event e values)).map fun watch => { s with watch }
  | .stop => (s.watch.step text .stop).map fun watch => { s with watch }
  | .look =>
    match s.phase with
    | .searching seen =>
      (s.watch.channel.look somebody seen).map fun looked =>
        { s with phase := afterLook s.watch.channel.version looked }
    | _ => none
  | .wake =>
    match s.phase with
    | .sleeping =>
      some { s with
        phase := .reading []
        listing := some ⟨s.watch.events, s.watch.channel.value⟩ }
    | _ => none
  | .read chunk =>
    match s.phase, s.listing with
    | .reading line, some listing =>
      match feed line chunk with
      | .more line => some { s with phase := .reading line }
      | .done line _ =>
        match utf8Decode line with
        | some input =>
          some { s with
            phase := .ended (chooseDevice listing.devices input), typed := some input }
        | none => some { s with phase := .ended (.error "stream did not contain valid UTF-8") }
    | _, _ => none
  | .readFails error =>
    match s.phase with
    | .reading _ => some { s with phase := .ended (.error error) }
    | _ => none

def machine (text : PeerText) : Machine Selection Action where
  init s := s = {}
  step := step text

/-! ## What holds in every run -/

/-- The list that was taken has every peer announced by then, each once. -/
structure Listed (events : List DiscoveryEvent) (listing : Listing) : Prop where
  before : listing.events <+: events
  mem_iff : ∀ name addr, (name, addr) ∈ listing.devices ↔
    announced listing.events addr.id = some (name, addr)
  nodup : (listing.devices.map fun device => device.2.id).Nodup

/-- How far the call is, and what is known then. -/
inductive Progress (s : Selection) : Prop
  | searching (seen : Option Nat) : s.phase = .searching seen → s.listing = none →
      s.watch.channel.TurnedDown somebody seen → Progress s
  | sleeping : s.phase = .sleeping → s.listing = none → Progress s
  | stopped : s.phase = .ended (.error "device discovery stopped") → s.listing = none →
      s.watch.channel.closed = true → s.watch.channel.value = [] → Progress s
  | reading (line : List UInt8) (listing : Listing) : s.phase = .reading line →
      s.listing = some listing → s.typed = none → Progress s
  | unread (e : String) (listing : Listing) : s.phase = .ended (.error e) →
      s.listing = some listing → s.typed = none → Progress s
  | chosen (listing : Listing) (input : String) :
      s.phase = .ended (chooseDevice listing.devices input) → s.listing = some listing →
      s.typed = some input → Progress s

structure Sound (text : PeerText) (s : Selection) : Prop where
  watch : s.watch.Tracks text
  listed : ∀ listing, s.listing = some listing → Listed s.watch.events listing
  untyped : s.listing = none → s.typed = none
  progress : s.Progress

variable {text : PeerText} {s s' : Selection} {a : Action}

theorem eq_nil_of_somebody {devices : List (UserData × EndpointAddr)}
    (h : somebody devices = false) : devices = [] := by
  simpa [somebody] using h

/-- A step of `discover`. -/
theorem Sound.discover {watch : PeerWatch} {b : PeerWatch.Action} (h : s.Sound text)
    (hst : s.watch.step text b = some watch) (hevents : s.watch.events <+: watch.events)
    (hdown : ∀ seen, s.watch.channel.TurnedDown somebody seen →
      watch.channel.TurnedDown somebody seen)
    (hclosed : s.watch.channel.closed = true → s.watch.channel.value = [] →
      watch.channel.closed = true ∧ watch.channel.value = []) :
    Sound text { s with watch } := by
  refine ⟨h.watch.step (PeerWatch.step_spec hst), fun listing hl => ?_, h.untyped, ?_⟩
  · obtain ⟨hbefore, hmem, hnodup⟩ := h.listed listing hl
    exact ⟨hbefore.trans hevents, hmem, hnodup⟩
  · obtain ⟨seen, hp, hl, ht⟩ | ⟨hp, hl⟩ | ⟨hp, hl, hc, hv⟩ | ⟨line, listing, hp, hl, ht⟩ |
      ⟨e, listing, hp, hl, ht⟩ | ⟨listing, input, hp, hl, ht⟩ := h.progress
    · exact .searching seen hp hl (hdown seen ht)
    · exact .sleeping hp hl
    · obtain ⟨hc, hv⟩ := hclosed hc hv
      exact .stopped hp hl hc hv
    · exact .reading line listing hp hl ht
    · exact .unread e listing hp hl ht
    · exact .chosen listing input hp hl ht

theorem Progress.of_searching {seen : Option Nat} (h : s.Progress)
    (hphase : s.phase = .searching seen) :
    s.listing = none ∧ s.watch.channel.TurnedDown somebody seen := by
  cases h with
  | searching seen' hp hl ht =>
    rw [hphase] at hp
    cases hp
    exact ⟨hl, ht⟩
  | _ => simp_all

theorem Progress.of_reading {line : List UInt8} (h : s.Progress)
    (hphase : s.phase = .reading line) :
    ∃ listing, s.listing = some listing ∧ s.typed = none := by
  cases h with
  | reading line' listing _ hl ht => exact ⟨listing, hl, ht⟩
  | _ => simp_all

theorem Sound.step (h : s.Sound text) (hst : s.step text a = some s') : s'.Sound text := by
  cases a <;> simp only [Selection.step] at hst
  case event e values =>
    obtain ⟨watch, hwatch, rfl⟩ := Option.map_eq_some_iff.mp hst
    have hspec := PeerWatch.step_spec hwatch
    cases hspec with
    | ignore hevent =>
      exact h.discover hwatch (List.prefix_append _ _) (fun _ => id) (fun hc hv => ⟨hc, hv⟩)
    | send hopen hevent hperm =>
      refine h.discover hwatch (List.prefix_append _ _) (fun _ hdown => hdown.send _) ?_
      intro hclosed
      rw [hopen] at hclosed
      cases hclosed
  case stop =>
    obtain ⟨watch, hwatch, rfl⟩ := Option.map_eq_some_iff.mp hst
    cases PeerWatch.step_spec hwatch
    exact h.discover hwatch (List.prefix_refl _) (fun _ hdown => hdown.close)
      (fun _ hv => ⟨rfl, hv⟩)
  case look =>
    split at hst
    · rename_i seen hphase
      obtain ⟨looked, hlook, rfl⟩ := Option.map_eq_some_iff.mp hst
      obtain ⟨hnone, hdown⟩ := h.progress.of_searching hphase
      have hspec := hdown.look
      rw [hlook] at hspec
      cases looked with
      | found => exact ⟨h.watch, h.listed, h.untyped, .sleeping rfl hnone⟩
      | again => exact ⟨h.watch, h.listed, h.untyped, .searching _ rfl hnone hspec⟩
      | failed =>
        exact ⟨h.watch, h.listed, h.untyped,
          .stopped rfl hnone hspec.1 (eq_nil_of_somebody hspec.2)⟩
    · cases hst
  case wake =>
    split at hst
    · rename_i hphase
      cases hst
      have hnone : s.listing = none := by
        cases h.progress <;> simp_all
      refine ⟨h.watch, ?_, nofun, .reading [] _ rfl rfl (h.untyped hnone)⟩
      rintro _ ⟨⟩
      exact ⟨List.prefix_refl _, fun _ _ => h.watch.mem_value_iff, h.watch.nodup_value⟩
    · cases hst
  case read chunk =>
    split at hst
    · rename_i line listing hphase hlisting
      obtain ⟨_, -, htyped⟩ := h.progress.of_reading hphase
      split at hst
      · cases hst
        exact ⟨h.watch, h.listed, h.untyped, .reading _ listing rfl hlisting htyped⟩
      · split at hst
        · rename_i input _
          cases hst
          exact ⟨h.watch, h.listed, fun hnone => by simp [hlisting] at hnone,
            .chosen listing input rfl hlisting rfl⟩
        · cases hst
          exact ⟨h.watch, h.listed, h.untyped, .unread _ listing rfl hlisting htyped⟩
    · cases hst
  case readFails error =>
    split at hst
    · rename_i line hphase
      obtain ⟨listing, hlisting, htyped⟩ := h.progress.of_reading hphase
      cases hst
      exact ⟨h.watch, h.listed, h.untyped, .unread error listing rfl hlisting htyped⟩
    · cases hst

theorem reachable_sound (hs : (machine text).Reachable s) : s.Sound text := by
  refine hs.invariant (I := Sound text) ?_ (fun s a s' _ h _ hst => h.step hst)
  rintro s rfl
  exact ⟨PeerWatch.reachable_tracks (.init rfl), nofun, fun _ => rfl,
    .searching none rfl rfl .new⟩

/-! ## The choice -/

/-- The line with the number of a device stands under the title and the rule. -/
theorem getElem_deviceScreen {devices : List (UserData × EndpointAddr)} {i : Nat} {name : UserData}
    {addr : EndpointAddr} (h : devices[i]? = some (name, addr)) :
    (deviceScreen devices)[i + 3]? = some s!"{i + 1}. {name.text}" := by
  have hline : (deviceLines devices)[i]? = some s!"{i + 1}. {name.text}" := by
    rw [deviceLines, List.getElem?_mapIdx, h]
    rfl
  have hlt : i < (deviceLines devices).length := (List.getElem?_eq_some_iff.mp hline).1
  rw [deviceScreen, List.append_assoc]
  show ((deviceLines devices) ++ _)[i]? = _
  rw [List.getElem?_append_left hlt, hline]

/-- **What a line chooses.** -/
theorem chooseDevice_eq_ok {devices : List (UserData × EndpointAddr)} {input : String}
    {addr : EndpointAddr} :
    chooseDevice devices input = .ok addr ↔
      ∃ i name, parseSelection input = some (i + 1) ∧ devices[i]? = some (name, addr) := by
  unfold chooseDevice
  cases hparse : parseSelection input with
  | none => simp
  | some idx =>
    cases idx with
    | zero => simp [checkedSub]
    | succ i =>
      cases hget : devices[i]? with
      | none => simp [checkedSub, hget]
      | some device =>
        obtain ⟨name, addr'⟩ := device
        simp [checkedSub, hget]

theorem chooseDevice_eq_error {devices : List (UserData × EndpointAddr)} {input : String}
    {e : String} (h : chooseDevice devices input = .error e) :
    e = "selection must be a number" ∧ parseSelection input = none ∨
    e = "selection out of range" ∧
      ∃ n, parseSelection input = some n ∧ (n = 0 ∨ devices.length < n) := by
  unfold chooseDevice at h
  cases hparse : parseSelection input with
  | none =>
    rw [hparse] at h
    cases h
    exact .inl ⟨rfl, rfl⟩
  | some idx =>
    rw [hparse] at h
    cases idx with
    | zero =>
      cases h
      exact .inr ⟨rfl, 0, rfl, .inl rfl⟩
    | succ i =>
      cases hget : devices[i]? with
      | none =>
        simp only [checkedSub, Nat.le_add_left, if_true, Nat.add_sub_cancel, Option.bind_some,
          hget, Except.error.injEq] at h
        exact .inr ⟨h.symm, i + 1, rfl, .inr (by simpa [Nat.lt_succ_iff] using hget)⟩
      | some device => simp [checkedSub, hget] at h

theorem not_isWhiteSpace_of_isDigit {c : Char} (h : c.isDigit = true) :
    isWhiteSpace c = false := by
  have hrange : 48 ≤ c.toNat ∧ c.toNat ≤ 57 := Char.isDigit_iff_toNat.mp h
  simp [isWhiteSpace]
  omega

/-- **A number is read back**, with the end of the line behind it. -/
theorem parseSelection_number {n : Nat} (h : n < UInt64.size) :
    parseSelection (toString n ++ "\n") = some n := by
  have htext : (toString n ++ "\n").toList = Nat.toDigits 10 n ++ ['\n'] := by
    simp
  have hdigit : ∀ c ∈ Nat.toDigits 10 n, c.isDigit = true :=
    fun c hc => Nat.isDigit_of_mem_toDigits (by decide) (by decide) hc
  rw [parseSelection, htext, Numeral.trim_append]
  · exact Numeral.parse_toDigits h
  · exact fun c hc => not_isWhiteSpace_of_isDigit (hdigit c hc)
  · rintro c hc
    rw [List.mem_singleton.mp hc]
    decide

/-- Reading the chunks of a line. -/
theorem exec_reads {line line' lost : List UInt8} {listing : Listing} {input : String}
    {chunks : List (List UInt8)} (hphase : s.phase = .reading line)
    (hlisting : s.listing = some listing) (hline : feeds line chunks = some (.done line' lost))
    (hinput : utf8Decode line' = some input) :
    (machine text).exec s (chunks.map .read) = some { s with
      phase := .ended (chooseDevice listing.devices input), typed := some input } := by
  induction chunks generalizing line s with
  | nil => cases hline
  | cons chunk chunks ih =>
    rw [List.map_cons, Machine.exec_cons]
    simp only [feeds] at hline
    split at hline
    · rename_i line₁ hfeed
      have hst : s.step text (.read chunk) = some { s with phase := .reading line₁ } := by
        simp only [step, hphase, hlisting, hfeed]
      rw [show (machine text).step s (.read chunk) = _ from hst, Option.bind_some]
      exact ih rfl hlisting hline
    · rename_i line₁ lost₁ hfeed
      split at hline <;> cases hline
      subst chunks
      have hst : s.step text (.read chunk) = some { s with
          phase := .ended (chooseDevice listing.devices input), typed := some input } := by
        simp only [step, hphase, hlisting, hfeed, hinput]
      rw [show (machine text).step s (.read chunk) = _ from hst, Option.bind_some]
      rfl

/-- What a call of `select_receiver` can do.
* `chosen`: it returns the address of the device that stands in the list at the number
  typed, under the name that was printed there, as last announced when the list was taken.
* `offered`: the list has all devices announced by then, each once; while the line is
  awaited, the number in front of each, on a line of its own, chooses it.
* `refused`: it fails when discovery has stopped and nobody is listed, when the line
  cannot be read, or on a text that is no number of the list.
* `waits`: in `wait_for` it waits only while nobody is listed and somebody may come. -/
structure SelectSound (text : PeerText) (s : Selection) : Prop where
  chosen : ∀ addr, s.phase = .ended (.ok addr) → ∃ listing input i name,
    s.listing = some listing ∧ s.typed = some input ∧ parseSelection input = some (i + 1) ∧
    listing.devices[i]? = some (name, addr) ∧
    (deviceScreen listing.devices)[i + 3]? = some s!"{i + 1}. {UserData.text name}" ∧
    announced listing.events addr.id = some (name, addr) ∧ listing.events <+: s.watch.events
  offered : ∀ listing, s.listing = some listing → Listed s.watch.events listing ∧
    (s.phase = .reading [] → ∀ i name addr, listing.devices[i]? = some (name, addr) →
      i + 1 < UInt64.size → ∀ line lost chunks, feeds [] chunks = some (.done line lost) →
        utf8Decode line = some (toString (i + 1) ++ "\n") →
        ∃ s', (machine text).exec s (chunks.map .read) = some s' ∧ s'.phase = .ended (.ok addr))
  refused : ∀ e, s.phase = .ended (.error e) →
    e = "device discovery stopped" ∧ s.watch.channel.closed = true ∧
      (∀ id, announced s.watch.events id = none) ∨
    s.typed = none ∧ s.listing.isSome = true ∨
    ∃ listing input, s.listing = some listing ∧ s.typed = some input ∧
      (e = "selection must be a number" ∧ parseSelection input = none ∨
        e = "selection out of range" ∧
          ∃ n, parseSelection input = some n ∧ (n = 0 ∨ listing.devices.length < n))
  waits : ∀ seen, s.phase = .searching seen → (machine text).step s .look = none →
    s.watch.channel.closed = false ∧ ∀ id, announced s.watch.events id = none

/-- Nobody is announced when the list is empty. -/
theorem announced_of_nil (h : s.watch.Tracks text) (hvalue : s.watch.channel.value = [])
    (id : EndpointId) : announced s.watch.events id = none := by
  cases hannounced : announced s.watch.events id with
  | none => rfl
  | some device =>
    obtain ⟨name, addr⟩ := device
    obtain rfl := announced_id hannounced
    have hmem := h.mem_value_iff.mpr hannounced
    rw [hvalue] at hmem
    cases hmem

/-- **The device chosen is the one shown.** -/
theorem selected_as_shown (hs : (machine text).Reachable s) : SelectSound text s := by
  have h := reachable_sound hs
  refine ⟨fun addr hphase => ?_, fun listing hlisting => ⟨h.listed listing hlisting, ?_⟩,
    fun e hphase => ?_, fun seen hphase hstep => ?_⟩
  · cases h.progress with
    | chosen listing input hp hl ht =>
      rw [hphase] at hp
      obtain ⟨i, name, hparse, hdevice⟩ := chooseDevice_eq_ok.mp (SelectPhase.ended.inj hp).symm
      obtain ⟨hbefore, hmem, -⟩ := h.listed listing hl
      exact ⟨listing, input, i, name, hl, ht, hparse, hdevice, getElem_deviceScreen hdevice,
        (hmem name addr).mp (List.mem_of_getElem? hdevice), hbefore⟩
    | _ => simp_all
  · intro hphase i name addr hdevice hlt line lost chunks hline hinput
    refine ⟨_, exec_reads hphase hlisting hline hinput, ?_⟩
    exact congrArg SelectPhase.ended
      (chooseDevice_eq_ok.mpr ⟨i, name, parseSelection_number hlt, hdevice⟩)
  · cases h.progress with
    | stopped hp hl hc hv =>
      rw [hphase] at hp
      cases hp
      exact .inl ⟨rfl, hc, announced_of_nil h.watch hv⟩
    | unread e' listing hp hl ht => exact .inr (.inl ⟨ht, by rw [hl]; rfl⟩)
    | chosen listing input hp hl ht =>
      rw [hphase] at hp
      exact .inr (.inr ⟨listing, input, hl, ht,
        chooseDevice_eq_error (SelectPhase.ended.inj hp).symm⟩)
    | _ => simp_all
  · obtain ⟨hnone, hdown⟩ := h.progress.of_searching hphase
    have hlook : s.watch.channel.look somebody seen = none := by
      simpa [machine, step, hphase] using hstep
    have hspec := hdown.look
    rw [hlook] at hspec
    exact ⟨hspec.1, announced_of_nil h.watch (eq_nil_of_somebody hspec.2)⟩

/-- Anna and Ben come, and the list is taken; Ben leaves while the user types his number
in two goes. -/
def sampleRun : List Action :=
  let anna := UserData.mk "anna"
  let ben := UserData.mk "ben"
  [.look, .event (.discovered ⟨⟨1⟩, some anna, ["a"]⟩) [(anna, ⟨⟨1⟩, ["a"]⟩)], .look,
    .event (.discovered ⟨⟨2⟩, some ben, ["b"]⟩) [(anna, ⟨⟨1⟩, ["a"]⟩), (ben, ⟨⟨2⟩, ["b"]⟩)],
    .wake, .event (.expired ⟨2⟩) [(anna, ⟨⟨1⟩, ["a"]⟩)], .read [50], .read [10]]

theorem selected_as_shown_sample : ∃ s,
    (machine PeerWatch.sampleText).exec {} sampleRun = some s ∧
    s.phase = .ended (.ok ⟨⟨2⟩, ["b"]⟩) ∧ announced s.watch.events ⟨2⟩ = none ∧
    ∃ listing name, s.listing = some listing ∧
      announced listing.events ⟨2⟩ = some (name, ⟨⟨2⟩, ["b"]⟩) := by
  have hstart : (machine PeerWatch.sampleText).Reachable {} := .init rfl
  have hrun : (machine PeerWatch.sampleText).exec {} sampleRun = some _ := rfl
  obtain ⟨listing, -, -, name, hlisting, -, -, -, -, hannounced, -⟩ :=
    (selected_as_shown (hstart.exec hrun)).chosen ⟨⟨2⟩, ["b"]⟩ rfl
  exact ⟨_, hrun, rfl, rfl, listing, name, hlisting, hannounced⟩

end Selection
end IrohShare
