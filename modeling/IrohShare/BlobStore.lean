import Mathlib.Data.Finset.Lattice.Lemmas
import Mathlib.Data.Finset.Range
import Mathlib.Logic.Function.Basic
import IrohShare.Transition
import IrohShare.Pins
import IrohShare.Protocol

/-!
# The blob store and its tags

All calls of `run_sender` and `download` of a process share one store, whose collector
removes what no tag protects.  Each call holds at most one temporary tag, from
`add_path(..).temp_tag()` or `tags().temp_tag(..)` to its return; every `?` and every
timeout is such a return.

What is in a blob, and which blobs a hash sequence names, follows from its hash:
`BlobContent` stands for it.
-/
namespace IrohShare
open Transition

/-- What a tag is on. -/
structure HashAndFormat where
  hash : Hash
  format : BlobFormat
  deriving DecidableEq, Repr

def BlobTicket.hashAndFormat (ticket : BlobTicket) : HashAndFormat := ⟨ticket.hash, ticket.format⟩

/-- How many chunks a blob has, and the blobs it names when it is a hash sequence. -/
structure BlobContent where
  chunks : Hash → Nat
  links : Hash → List Hash

/-- Where a call is.  The first three are `run_sender`: before its tag, before the offer is
written, after it.  The next four are `download`: before its tag, reading the stream of the
downloader, in `export` and after it; `got` are the chunks that its fetch has brought. -/
inductive StoreCall
  | hashing
  | hashed (offer : Offer)
  | offered (offer : Offer)
  | asked (offer : Offer)
  | fetching (offer : Offer) (got : Finset Nat)
  | exporting (offer : Offer) (got : Finset Nat)
  | exported (offer : Offer) (got : Finset Nat)
  | returned
  deriving DecidableEq

namespace StoreCall

/-- The tag that a call holds. -/
def tag : StoreCall → Option HashAndFormat
  | hashed offer | offered offer => some offer.ticket.hashAndFormat
  | fetching offer _ | exporting offer _ | exported offer _ => some offer.ticket.hashAndFormat
  | hashing | asked _ | returned => none

/-- The offer of a call that is between the start of its fetch and its return. -/
def fetches : StoreCall → Option Offer
  | fetching offer _ | exporting offer _ | exported offer _ => some offer
  | _ => none

end StoreCall

/-- The store, its temporary tags and the calls.  A blob is there with some of its
chunks, or not there. -/
structure BlobStore where
  data : Hash → Option (Finset Nat) := fun _ => none
  tags : List HashAndFormat := []
  calls : List StoreCall := []

namespace BlobStore

/-- A live tag protects its blob, and those named by it if it is on a hash sequence. -/
def covered (content : BlobContent) (tags : List HashAndFormat) (hash : Hash) : Bool :=
  tags.any fun tag =>
    tag.hash = hash || (tag.format = .hashSeq && hash ∈ content.links tag.hash)

/-- A run of the collector. -/
def collect (content : BlobContent) (s : BlobStore) : BlobStore :=
  { s with data := fun hash => if covered content s.tags hash then s.data hash else none }

/-- Chunks of a blob are written to the store. -/
def write (s : BlobStore) (hash : Hash) (chunks : Finset Nat) : BlobStore :=
  { s with
    data := Function.update s.data hash (some ((s.data hash).getD ∅ ∪ chunks)) }

def setCall (s : BlobStore) (k : Nat) (call : StoreCall) : BlobStore :=
  { s with calls := s.calls.set k call }

/-- `send` and `receive` are the two calls.  `leave` is a return by whatever path, `arrive`
a chunk of a fetch whose call has returned. -/
inductive Action
  | send
  | receive (offer : Offer)
  | addPath (k : Nat) (filename : String) (filesize : UInt64) (tag : HashAndFormat)
  | writeOffer (k : Nat)
  | tempTag (k : Nat)
  | fetch (k : Nat) (chunk : Nat)
  | fetched (k : Nat)
  | exported (k : Nat)
  | leave (k : Nat)
  | arrive (hash : Hash) (chunk : Nat)
  | collect
  deriving DecidableEq

variable (endpoint : EndpointId) (content : BlobContent)

def step (s : BlobStore) : Action → Option BlobStore
  | .send => some { s with calls := s.calls ++ [.hashing] }
  | .receive offer => some { s with calls := s.calls ++ [.asked offer] }
  | .addPath k filename filesize tag =>
    match s.calls[k]? with
    | some .hashing =>
      let ticket : BlobTicket := ⟨⟨endpoint, []⟩, tag.hash, tag.format⟩
      let s := s.write tag.hash (Finset.range (content.chunks tag.hash))
      some { s.setCall k (.hashed ⟨filename, filesize, ticket⟩) with tags := tag :: s.tags }
    | _ => none
  | .writeOffer k =>
    match s.calls[k]? with
    | some (.hashed offer) => some (s.setCall k (.offered offer))
    | _ => none
  | .tempTag k =>
    match s.calls[k]? with
    | some (.asked offer) =>
      some { s.setCall k (.fetching offer ∅) with tags := offer.ticket.hashAndFormat :: s.tags }
    | _ => none
  | .fetch k chunk =>
    match s.calls[k]? with
    | some (.fetching offer got) =>
      some ((s.write offer.ticket.hash {chunk}).setCall k (.fetching offer (got ∪ {chunk})))
    | _ => none
  | .fetched k =>
    match s.calls[k]? with
    | some (.fetching offer got) => some (s.setCall k (.exporting offer got))
    | _ => none
  | .exported k =>
    match s.calls[k]? with
    | some (.exporting offer got) => some (s.setCall k (.exported offer got))
    | _ => none
  | .leave k =>
    match s.calls[k]? with
    | none | some .returned => none
    | some call =>
      some { s.setCall k .returned with tags := (call.tag.map s.tags.erase).getD s.tags }
  | .arrive hash chunk => some (s.write hash {chunk})
  | .collect => some (s.collect content)

/-- A store that is empty, or has what earlier runs left in it. -/
def machine : Machine BlobStore Action where
  init s := s.tags = [] ∧ s.calls = []
  step := step endpoint content

variable {endpoint content}

/-! ## What a step can do -/

/-- The steps again, one constructor for each thing that can happen. -/
inductive Step (endpoint : EndpointId) (content : BlobContent) (s : BlobStore) :
    Action → BlobStore → Prop
  | send : Step endpoint content s .send { s with calls := s.calls ++ [.hashing] }
  | receive {offer : Offer} :
      Step endpoint content s (.receive offer) { s with calls := s.calls ++ [.asked offer] }
  | addPath {k : Nat} {filename : String} {filesize : UInt64} {tag : HashAndFormat} :
      s.calls[k]? = some .hashing →
      Step endpoint content s (.addPath k filename filesize tag)
        { (s.write tag.hash (Finset.range (content.chunks tag.hash))).setCall k
            (.hashed ⟨filename, filesize, ⟨⟨endpoint, []⟩, tag.hash, tag.format⟩⟩) with
          tags := tag :: s.tags }
  | writeOffer {k : Nat} {offer : Offer} : s.calls[k]? = some (.hashed offer) →
      Step endpoint content s (.writeOffer k) (s.setCall k (.offered offer))
  | tempTag {k : Nat} {offer : Offer} : s.calls[k]? = some (.asked offer) →
      Step endpoint content s (.tempTag k)
        { s.setCall k (.fetching offer ∅) with tags := offer.ticket.hashAndFormat :: s.tags }
  | fetch {k chunk : Nat} {offer : Offer} {got : Finset Nat} :
      s.calls[k]? = some (.fetching offer got) →
      Step endpoint content s (.fetch k chunk)
        ((s.write offer.ticket.hash {chunk}).setCall k (.fetching offer (got ∪ {chunk})))
  | fetched {k : Nat} {offer : Offer} {got : Finset Nat} :
      s.calls[k]? = some (.fetching offer got) →
      Step endpoint content s (.fetched k) (s.setCall k (.exporting offer got))
  | exported {k : Nat} {offer : Offer} {got : Finset Nat} :
      s.calls[k]? = some (.exporting offer got) →
      Step endpoint content s (.exported k) (s.setCall k (.exported offer got))
  | leave {k : Nat} {call : StoreCall} : s.calls[k]? = some call →
      Step endpoint content s (.leave k)
        { s.setCall k .returned with tags := (call.tag.map s.tags.erase).getD s.tags }
  | arrive {hash : Hash} {chunk : Nat} :
      Step endpoint content s (.arrive hash chunk) (s.write hash {chunk})
  | collect : Step endpoint content s .collect (s.collect content)

theorem step_spec {s s' : BlobStore} {a : Action} (hst : s.step endpoint content a = some s') :
    Step endpoint content s a s' := by
  cases a <;> simp only [step] at hst
  case send =>
    cases hst
    exact .send
  case receive offer =>
    cases hst
    exact .receive
  case arrive hash chunk =>
    cases hst
    exact .arrive
  case collect =>
    cases hst
    exact .collect
  case addPath k filename filesize tag =>
    split at hst <;> cases hst
    exact .addPath ‹_›
  case writeOffer k =>
    split at hst <;> cases hst
    exact .writeOffer ‹_›
  case tempTag k =>
    split at hst <;> cases hst
    exact .tempTag ‹_›
  case fetch k chunk =>
    split at hst <;> cases hst
    exact .fetch ‹_›
  case fetched k =>
    split at hst <;> cases hst
    exact .fetched ‹_›
  case exported k =>
    split at hst <;> cases hst
    exact .exported ‹_›
  case leave k =>
    split at hst <;> cases hst
    exact .leave ‹_›

/-! ## What a step leaves in the store -/

/-- Nothing of a blob is lost. -/
def Kept (data data' : Hash → Option (Finset Nat)) (hash : Hash) : Prop :=
  ∀ chunks, data hash = some chunks → ∃ chunks', data' hash = some chunks' ∧ chunks ⊆ chunks'

theorem Kept.refl (data : Hash → Option (Finset Nat)) (hash : Hash) : Kept data data hash :=
  fun chunks h => ⟨chunks, h, Finset.Subset.refl _⟩

theorem Kept.trans {data data' data'' : Hash → Option (Finset Nat)} {hash : Hash}
    (h : Kept data data' hash) (h' : Kept data' data'' hash) : Kept data data'' hash := by
  intro chunks hdata
  obtain ⟨chunks', hdata', hsub⟩ := h chunks hdata
  obtain ⟨chunks'', hdata'', hsub'⟩ := h' chunks' hdata'
  exact ⟨chunks'', hdata'', hsub.trans hsub'⟩

theorem write_data (s : BlobStore) (hash : Hash) (chunks : Finset Nat) :
    (s.write hash chunks).data =
      Function.update s.data hash (some ((s.data hash).getD ∅ ∪ chunks)) := rfl

theorem kept_write (s : BlobStore) (hash : Hash) (chunks : Finset Nat) (other : Hash) :
    Kept s.data (s.write hash chunks).data other := by
  intro there hthere
  by_cases heq : other = hash
  · subst heq
    refine ⟨there ∪ chunks, ?_, Finset.subset_union_left⟩
    rw [write_data, Function.update_self, hthere, Option.getD_some]
  · exact ⟨there, by rw [write_data, Function.update_of_ne heq, hthere], Finset.Subset.refl _⟩

theorem kept_collect {s : BlobStore} {tag : HashAndFormat} (htag : tag ∈ s.tags) :
    Kept s.data (s.collect content).data tag.hash := by
  have hcovered : covered content s.tags tag.hash = true :=
    List.any_eq_true.mpr ⟨tag, htag, by simp⟩
  intro chunks hdata
  exact ⟨chunks, (if_pos hcovered).trans hdata, Finset.Subset.refl _⟩

/-- No step removes anything of a blob that a tag is on. -/
theorem step_kept {s s' : BlobStore} {a : Action} {tag : HashAndFormat} (htag : tag ∈ s.tags)
    (hst : Step endpoint content s a s') : Kept s.data s'.data tag.hash := by
  cases hst with
  | addPath | fetch | arrive => exact kept_write _ _ _ _
  | collect => exact kept_collect htag
  | _ => exact .refl _ _

/-! ## What each call can rely on -/

/-- The whole blob is in the store. -/
def Present (content : BlobContent) (data : Hash → Option (Finset Nat)) (hash : Hash) : Prop :=
  ∃ chunks, data hash = some chunks ∧ Finset.range (content.chunks hash) ⊆ chunks

/-- These chunks of a blob are in the store. -/
def Holds (data : Hash → Option (Finset Nat)) (hash : Hash) (got : Finset Nat) : Prop :=
  ∀ chunk ∈ got, ∃ chunks, data hash = some chunks ∧ chunk ∈ chunks

/-- What the store owes to a call: the blob of its offer, or what its fetch has brought. -/
def Served (content : BlobContent) (data : Hash → Option (Finset Nat)) : StoreCall → Prop
  | .hashed offer | .offered offer => Present content data offer.ticket.hash
  | .fetching offer got | .exporting offer got | .exported offer got =>
    Holds data offer.ticket.hash got
  | .hashing | .asked _ | .returned => True

theorem Present.kept {data data' : Hash → Option (Finset Nat)} {hash : Hash}
    (h : Present content data hash) (hkept : Kept data data' hash) :
    Present content data' hash := by
  obtain ⟨chunks, hdata, hsub⟩ := h
  obtain ⟨chunks', hdata', hsub'⟩ := hkept chunks hdata
  exact ⟨chunks', hdata', hsub.trans hsub'⟩

theorem Holds.kept {data data' : Hash → Option (Finset Nat)} {hash : Hash} {got : Finset Nat}
    (h : Holds data hash got) (hkept : Kept data data' hash) : Holds data' hash got := by
  intro chunk hchunk
  obtain ⟨chunks, hdata, hmem⟩ := h chunk hchunk
  obtain ⟨chunks', hdata', hsub⟩ := hkept chunks hdata
  exact ⟨chunks', hdata', hsub hmem⟩

theorem Served.kept {data data' : Hash → Option (Finset Nat)} {call : StoreCall}
    (h : Served content data call)
    (hkept : ∀ tag, call.tag = some tag → Kept data data' tag.hash) :
    Served content data' call := by
  cases call with
  | hashed offer | offered offer => exact Present.kept h (hkept _ rfl)
  | fetching offer got | exporting offer got | exported offer got =>
    exact Holds.kept h (hkept _ rfl)
  | hashing | asked | returned => trivial

/-- The tags are those of the calls, counted, and every call has what it relies on. -/
structure Protected (content : BlobContent) (s : BlobStore) : Prop where
  counted : Pins.Counted StoreCall.tag s.tags s.calls
  served : ∀ call ∈ s.calls, Served content s.data call

/-- Calls that a step leaves alone keep what they have. -/
theorem Protected.served_step {s s' : BlobStore} {a : Action} (h : s.Protected content)
    (hst : Step endpoint content s a s') {call : StoreCall} (hcall : call ∈ s.calls) :
    Served content s'.data call :=
  (h.served call hcall).kept fun _ htag => step_kept (h.counted.mem hcall htag) hst

/-- One call changes. -/
theorem Protected.set {s s' : BlobStore} {a : Action} {k : Nat} {call : StoreCall}
    (h : s.Protected content) (hst : Step endpoint content s a s')
    (hcalls : s'.calls = s.calls.set k call)
    (hcounted : Pins.Counted StoreCall.tag s'.tags (s.calls.set k call))
    (hserved : Served content s'.data call) : s'.Protected content := by
  refine ⟨hcalls ▸ hcounted, fun other hother => ?_⟩
  rw [hcalls] at hother
  rcases List.mem_or_eq_of_mem_set hother with hold | rfl
  · exact h.served_step hst hold
  · exact hserved

/-- A new call begins. -/
theorem Protected.join {s : BlobStore} (h : s.Protected content) {call : StoreCall}
    (htag : call.tag = none) (hserved : Served content s.data call) :
    Protected content { s with calls := s.calls ++ [call] } := by
  refine ⟨h.counted.join htag, fun other hother => ?_⟩
  rcases List.mem_append.mp hother with hold | hnew
  · exact h.served other hold
  · exact List.mem_singleton.mp hnew ▸ hserved

theorem present_write (s : BlobStore) (hash : Hash) :
    Present content (s.write hash (Finset.range (content.chunks hash))).data hash :=
  ⟨_, Function.update_self .., Finset.subset_union_right⟩

theorem holds_write {s : BlobStore} {hash : Hash} {got : Finset Nat}
    (h : Holds s.data hash got) (chunk : Nat) :
    Holds (s.write hash {chunk}).data hash (got ∪ {chunk}) := by
  intro other hother
  rcases Finset.mem_union.mp hother with hold | hnew
  · exact h.kept (kept_write s hash {chunk} hash) other hold
  · exact ⟨_, Function.update_self .., Finset.mem_union_right _ hnew⟩

theorem Protected.step {s s' : BlobStore} {a : Action} (h : s.Protected content)
    (hst : Step endpoint content s a s') : s'.Protected content := by
  have hstep := hst
  cases hst with
  | send | receive => exact h.join rfl trivial
  | @addPath k filename filesize tag hk =>
    exact h.set hstep rfl (h.counted.pin hk rfl rfl) (present_write s tag.hash)
  | writeOffer hk =>
    have hpresent := h.served _ (List.mem_of_getElem? hk)
    exact h.set hstep rfl (h.counted.keep hk rfl) hpresent
  | tempTag hk => exact h.set hstep rfl (h.counted.pin hk rfl rfl) nofun
  | @fetch k chunk offer got hk =>
    have hholds := h.served _ (List.mem_of_getElem? hk)
    exact h.set hstep rfl (h.counted.keep hk rfl) (holds_write hholds chunk)
  | fetched hk | exported hk =>
    have hholds := h.served _ (List.mem_of_getElem? hk)
    exact h.set hstep rfl (h.counted.keep hk rfl) hholds
  | @leave k call hk =>
    refine h.set hstep rfl ?_ trivial
    cases htag : call.tag with
    | none => exact h.counted.keep hk htag.symm
    | some tag => exact h.counted.release hk htag rfl
  | arrive | collect => exact ⟨h.counted, fun call hcall => h.served_step hstep hcall⟩

theorem reachable_protected {s : BlobStore} (hs : (machine endpoint content).Reachable s) :
    s.Protected content := by
  refine hs.invariant (I := Protected content) ?_ ?_
  · rintro s ⟨htags, hcalls⟩
    refine ⟨?_, ?_⟩
    · rw [htags, hcalls]
      exact .nil
    · rw [hcalls]
      nofun
  · intro s a s' _ h _ hst
    exact h.step (step_spec hst)

/-! ## Over a whole run -/

/-- A call that has returned stays so, and one that has started its fetch keeps its offer
until it returns. -/
def Proceeds (call call' : StoreCall) : Prop :=
  (call = .returned → call' = .returned) ∧
    ∀ offer, call.fetches = some offer → call' = .returned ∨ call'.fetches = some offer

theorem Proceeds.refl (call : StoreCall) : Proceeds call call := ⟨id, fun _ => .inr⟩

theorem proceeds_set {calls : List StoreCall} {j k : Nat} {old new call : StoreCall}
    (hj : calls[j]? = some old) (hnew : Proceeds old new) (hk : calls[k]? = some call) :
    ∃ call', (calls.set j new)[k]? = some call' ∧ Proceeds call call' := by
  by_cases heq : j = k
  · subst heq
    rw [hk] at hj
    cases hj
    exact ⟨new, List.getElem?_set_self (List.getElem?_eq_some_iff.mp hk).1, hnew⟩
  · exact ⟨call, (List.getElem?_set_ne heq).trans hk, .refl call⟩

theorem step_proceeds {s s' : BlobStore} {a : Action} (hst : Step endpoint content s a s')
    {k : Nat} {call : StoreCall} (hk : s.calls[k]? = some call) :
    ∃ call', s'.calls[k]? = some call' ∧ Proceeds call call' := by
  cases hst with
  | send | receive =>
    have hlt := (List.getElem?_eq_some_iff.mp hk).1
    exact ⟨call, (List.getElem?_append_left hlt).trans hk, .refl call⟩
  | arrive | collect => exact ⟨call, hk, .refl call⟩
  | addPath hj | writeOffer hj | tempTag hj =>
    -- these calls have not started a fetch
    exact proceeds_set hj ⟨nofun, nofun⟩ hk
  | fetch hj | fetched hj | exported hj => exact proceeds_set hj ⟨nofun, fun _ => .inr⟩ hk
  | leave hj => exact proceeds_set hj ⟨fun _ => rfl, fun _ _ => .inl rfl⟩ hk

/-- A call that has returned is found returned after any run. -/
theorem exec_returned {s s' : BlobStore} {as : List Action} {k : Nat}
    (hrun : (machine endpoint content).exec s as = some s')
    (hk : s.calls[k]? = some .returned) : s'.calls[k]? = some .returned := by
  induction as generalizing s with
  | nil =>
    cases hrun
    exact hk
  | cons a as ih =>
    obtain ⟨t, hst, hrest⟩ := Option.bind_eq_some_iff.mp hrun
    obtain ⟨call', hcall', hproceeds⟩ := step_proceeds (step_spec hst) hk
    exact ih hrest (hproceeds.1 rfl ▸ hcall')

/-- During its fetch and its export, nothing of a call's blob is lost. -/
theorem exec_kept {s s' : BlobStore} {as : List Action} {k : Nat} {call call' : StoreCall}
    {offer : Offer} (hs : (machine endpoint content).Reachable s)
    (hrun : (machine endpoint content).exec s as = some s')
    (hk : s.calls[k]? = some call) (hfetches : call.fetches = some offer)
    (hk' : s'.calls[k]? = some call') (hfetches' : call'.fetches ≠ none) :
    Kept s.data s'.data offer.ticket.hash := by
  induction as generalizing s call with
  | nil =>
    cases hrun
    exact .refl _ _
  | cons a as ih =>
    obtain ⟨t, hst, hrest⟩ := Option.bind_eq_some_iff.mp hrun
    have htag : call.tag = some offer.ticket.hashAndFormat := by
      cases call <;> cases hfetches <;> rfl
    have hpin := (reachable_protected hs).counted.mem (List.mem_of_getElem? hk) htag
    obtain ⟨next, hnext, hproceeds⟩ := step_proceeds (step_spec hst) hk
    rcases hproceeds.2 offer hfetches with rfl | hstill
    · rw [exec_returned hrest hnext] at hk'
      cases hk'
      exact absurd rfl hfetches'
    · exact (step_kept hpin (step_spec hst)).trans (ih (.step hs trivial hst) hrest hnext hstill)

/-- **The collector takes nothing that is in use.**  In every run of the calls and the
collector: the blob of an offer that `run_sender` has written is there until it returns;
what the fetch of a `download` has brought is there until that returns; and nothing of its
blob is removed between any two moments of this span. -/
theorem in_use_kept {s : BlobStore} (hs : (machine endpoint content).Reachable s) :
    (∀ (k : Nat) offer, s.calls[k]? = some (.offered offer) →
      Present content s.data offer.ticket.hash) ∧
    (∀ (k : Nat) offer got, s.calls[k]? = some (.fetching offer got) ∨
        s.calls[k]? = some (.exporting offer got) ∨ s.calls[k]? = some (.exported offer got) →
      Holds s.data offer.ticket.hash got) ∧
    (∀ as s', (machine endpoint content).exec s as = some s' →
      ∀ (k : Nat) call call' offer, s.calls[k]? = some call → call.fetches = some offer →
        s'.calls[k]? = some call' → call'.fetches ≠ none →
        Kept s.data s'.data offer.ticket.hash) := by
  have hprot := reachable_protected hs
  refine ⟨fun k offer hk => ?_, fun k offer got hk => ?_, ?_⟩
  · exact hprot.served (.offered offer) (List.mem_of_getElem? hk)
  · rcases hk with hk | hk | hk
    · exact hprot.served (.fetching offer got) (List.mem_of_getElem? hk)
    · exact hprot.served (.exporting offer got) (List.mem_of_getElem? hk)
    · exact hprot.served (.exported offer got) (List.mem_of_getElem? hk)
  · intro as s' hrun k call call' offer hk hfetches hk' hfetches'
    exact exec_kept hs hrun hk hfetches hk' hfetches'

/-- A blob of two chunks. -/
def sampleContent : BlobContent := ⟨fun _ => 2, fun _ => []⟩

/-- A send of `a.txt` and a download of the same blob; another download of it begins,
brings a chunk and fails, and the collector runs. -/
def sharedHashRun : List Action :=
  [.send, .addPath 0 "a.txt" 3 ⟨⟨7⟩, .raw⟩, .writeOffer 0, .receive Offer.sampleOffer, .tempTag 1,
    .fetch 1 0, .receive Offer.sampleOffer, .tempTag 2, .fetch 2 1, .leave 2, .collect,
    .fetched 1]

theorem in_use_kept_shared :
    ∃ s, (machine ⟨1⟩ sampleContent).exec {} sharedHashRun = some s ∧
      s.tags = [⟨⟨7⟩, .raw⟩, ⟨⟨7⟩, .raw⟩] ∧ Present sampleContent s.data ⟨7⟩ ∧
      Holds s.data ⟨7⟩ {0} := by
  have hstart : (machine ⟨1⟩ sampleContent).Reachable {} := .init ⟨rfl, rfl⟩
  have hs := hstart.exec (rfl : (machine ⟨1⟩ sampleContent).exec {} sharedHashRun = some _)
  have hkept := in_use_kept hs
  exact ⟨_, rfl, rfl, hkept.1 0 _ rfl, hkept.2.1 1 _ _ (.inr (.inl rfl))⟩

end BlobStore
end IrohShare
