import Mathlib.Logic.Function.Basic
import IrohShare.Transition
import IrohShare.Receiver

/-!
# Downloads that share a folder

`download` looks whether its target exists, fetches the blob, and exports it over
whatever is at the target by then.  Each accepted offer runs `download` in a task of its
own, so the look and the export of one can lie around those of another.

`locate` says which file a path names, so two paths may name one file; `blob` is the
content a hash names.  An export writes to its own target only, in any number of writes,
and a successful one leaves the whole blob there.
-/
namespace IrohShare
open Transition

abbrev DownloadId := Nat

/-- Where a call of `download` is: not made, before the look, between the look and the
export, in the export, returned `Ok`, or returned an error. -/
inductive Download
  | none
  | checking (target : String) (hash : Hash)
  | fetching (target : String) (hash : Hash)
  | exporting (target : String) (hash : Hash)
  | completed (target : String) (hash : Hash)
  | failed
  deriving DecidableEq, Repr

/-- The target of a download between its look and its return. -/
def Download.active : Download → Option String
  | fetching target _ => some target
  | exporting target _ => some target
  | _ => Option.none

/-- The files of the machine, those there were at first, and the downloads. -/
structure Folder (Location : Type) where
  files : Location → Option (List UInt8)
  original : Location → Option (List UInt8)
  downloads : DownloadId → Download

namespace Folder
variable {Location : Type} [DecidableEq Location] (locate : String → Location)
  (blob : Hash → List UInt8)

/-- The steps of download `d`; `fail` is an error of a request, `write` a write of the
export in progress. -/
inductive Action
  | call (d : DownloadId) (downloadDir : String) (offer : Offer)
  | look (d : DownloadId)
  | fail (d : DownloadId)
  | callExport (d : DownloadId)
  | write (d : DownloadId) (content : List UInt8)
  | finish (d : DownloadId)

def setDownload (s : Folder Location) (d : DownloadId) (download : Download) : Folder Location :=
  { s with downloads := Function.update s.downloads d download }

def setFile (s : Folder Location) (x : Location) (content : List UInt8) : Folder Location :=
  { s with files := Function.update s.files x (some content) }

def step (s : Folder Location) : Action → Option (Folder Location)
  | .call d downloadDir offer =>
    match s.downloads d with
    | .none =>
      match Path.fileName offer.filename with
      | some filename =>
        some (s.setDownload d (.checking (Path.join downloadDir filename) offer.ticket.hash))
      | none => some (s.setDownload d .failed)
    | _ => none
  | .look d =>
    match s.downloads d with
    | .checking target hash =>
      if (s.files (locate target)).isSome then some (s.setDownload d .failed)
      else some (s.setDownload d (.fetching target hash))
    | _ => none
  | .fail d =>
    match s.downloads d with
    | .checking _ _ | .fetching _ _ | .exporting _ _ => some (s.setDownload d .failed)
    | _ => none
  | .callExport d =>
    match s.downloads d with
    | .fetching target hash => some (s.setDownload d (.exporting target hash))
    | _ => none
  | .write d content =>
    match s.downloads d with
    | .exporting target _ => some (s.setFile (locate target) content)
    | _ => none
  | .finish d =>
    match s.downloads d with
    -- the export does not look again
    | .exporting target hash =>
      some ((s.setFile (locate target) (blob hash)).setDownload d (.completed target hash))
    | _ => none

/-- Any files, and no download yet. -/
def machine : Machine (Folder Location) Action where
  init s := s.files = s.original ∧ ∀ d, s.downloads d = .none
  step := step locate blob

/-! ## What a step can do -/

/-- The steps as a relation. -/
inductive Step (s : Folder Location) : Action → Folder Location → Prop
  | call {d : DownloadId} {downloadDir filename : String} {offer : Offer} :
      s.downloads d = .none → Path.fileName offer.filename = some filename →
      Step s (.call d downloadDir offer)
        (s.setDownload d (.checking (Path.join downloadDir filename) offer.ticket.hash))
  | unnamed {d : DownloadId} {downloadDir : String} {offer : Offer} :
      s.downloads d = .none → Path.fileName offer.filename = none →
      Step s (.call d downloadDir offer) (s.setDownload d .failed)
  | look {d : DownloadId} {target : String} {hash : Hash} :
      s.downloads d = .checking target hash → s.files (locate target) = none →
      Step s (.look d) (s.setDownload d (.fetching target hash))
  | found {d : DownloadId} {target : String} {hash : Hash} :
      s.downloads d = .checking target hash → s.files (locate target) ≠ none →
      Step s (.look d) (s.setDownload d .failed)
  | fail {d : DownloadId} : s.downloads d ≠ .none → (∀ t h, s.downloads d ≠ .completed t h) →
      Step s (.fail d) (s.setDownload d .failed)
  | callExport {d : DownloadId} {target : String} {hash : Hash} :
      s.downloads d = .fetching target hash →
      Step s (.callExport d) (s.setDownload d (.exporting target hash))
  | write {d : DownloadId} {target : String} {hash : Hash} {content : List UInt8} :
      s.downloads d = .exporting target hash →
      Step s (.write d content) (s.setFile (locate target) content)
  | finish {d : DownloadId} {target : String} {hash : Hash} :
      s.downloads d = .exporting target hash →
      Step s (.finish d)
        ((s.setFile (locate target) (blob hash)).setDownload d (.completed target hash))

variable {locate blob} {s s' : Folder Location} {a : Action}

theorem step_spec (hst : s.step locate blob a = some s') : Step locate blob s a s' := by
  cases a <;> simp only [step] at hst
  case call d downloadDir offer =>
    split at hst
    · split at hst
      · cases hst
        exact .call ‹_› ‹_›
      · cases hst
        exact .unnamed ‹_› ‹_›
    · cases hst
  case look d =>
    split at hst
    · rename_i target hash hd
      split at hst
      · rename_i hsome
        cases hst
        exact .found hd (Option.isSome_iff_ne_none.mp hsome)
      · rename_i hnone
        cases hst
        exact .look hd (by simpa using hnone)
    · cases hst
  case fail d =>
    split at hst
    · rename_i hd
      cases hst
      exact .fail (by simp [hd]) (by simp [hd])
    · rename_i hd
      cases hst
      exact .fail (by simp [hd]) (by simp [hd])
    · rename_i hd
      cases hst
      exact .fail (by simp [hd]) (by simp [hd])
    · cases hst
  case callExport d =>
    split at hst
    · cases hst
      exact .callExport ‹_›
    · cases hst
  case write d content =>
    split at hst
    · cases hst
      exact .write ‹_›
    · cases hst
  case finish d =>
    split at hst
    · cases hst
      exact .finish ‹_›
    · cases hst

/-- **One download on its own does what `download` does.**  When `download` succeeds on a
host that looks into this folder, the steps of the download taken one after the other
complete with the same target, and leave there what `download` exported. -/
theorem exec_of_download {host : Host} {downloadDir : String} {offer : Offer} {r r' : Receiving}
    {d : DownloadId} (hdownload : (download host downloadDir offer).run r = .ok () r')
    (hlook : ∀ target, host.tryExists target = .ok (s.files (locate target)).isSome)
    (hd : s.downloads d = .none) :
    ∃ target s', (machine locate host.blob).exec s
        [.call d downloadDir offer, .look d, .callExport d, .finish d] = some s' ∧
      s'.downloads d = .completed target offer.ticket.hash ∧
      s'.files = Function.update s.files (locate target) (some (host.blob offer.ticket.hash)) ∧
      r'.files = r.files ++ [(target, host.blob offer.ticket.hash)] := by
  obtain ⟨name, hname, hexists, hfiles, -⟩ := download_ok hdownload
  have hfree : s.files (locate (Path.join downloadDir name)) = none := by
    simpa [hlook] using hexists
  refine ⟨Path.join downloadDir name,
    (s.setFile (locate (Path.join downloadDir name)) (host.blob offer.ticket.hash)).setDownload d
      (.completed (Path.join downloadDir name) offer.ticket.hash), ?_, ?_, rfl, hfiles⟩
  · simp [Machine.exec, machine, step, hd, hname, hfree, setDownload, setFile]
  · simp [setDownload]

/-! ## Looks that keep out of each other's way -/

variable (locate) in
/-- No look passes for a target on which another download is between its own look and its
return. -/
def Exclusive (s : Folder Location) : Action → Prop
  | .look d => ∀ target hash, s.downloads d = .checking target hash →
      s.files (locate target) = none →
      ∀ d' target', (s.downloads d').active = some target' → locate target' ≠ locate target
  | _ => True

variable (blob locate) in
/-- The file `x` was there at first, or a download that returned `Ok` put it there. -/
def Kept (s : Folder Location) (x : Location) (content : List UInt8) : Prop :=
  s.original x = some content ∨
    ∃ d target hash, s.downloads d = .completed target hash ∧ locate target = x ∧
      blob hash = content

variable (blob locate) in
/-- What the downloads leave alone: a target that is being fetched has no file, no two
downloads are at one target, and nothing is at a file that is kept. -/
structure Protected (s : Folder Location) : Prop where
  fetching : ∀ {d target hash}, s.downloads d = .fetching target hash →
    s.files (locate target) = none
  apart : ∀ {d d' target target'}, (s.downloads d).active = some target →
    (s.downloads d').active = some target' → d ≠ d' → locate target ≠ locate target'
  kept : ∀ {x content}, Kept locate blob s x content → s.files x = some content ∧
    ∀ {d target}, (s.downloads d).active = some target → locate target ≠ x
  distinct : ∀ {d d' target target' hash hash'}, s.downloads d = .completed target hash →
    s.downloads d' = .completed target' hash' → d ≠ d' → locate target ≠ locate target'

theorem active_update {downloads : DownloadId → Download} {d d' : DownloadId}
    {download : Download} {target : String}
    (h : (Function.update downloads d download d').active = some target) :
    (d' = d ∧ download.active = some target) ∨ (d' ≠ d ∧ (downloads d').active = some target) := by
  by_cases heq : d' = d
  · subst heq
    exact .inl ⟨rfl, by simpa using h⟩
  · exact .inr ⟨heq, by simpa [heq] using h⟩

theorem completed_update {downloads : DownloadId → Download} {d d' : DownloadId}
    {download : Download} {target : String} {hash : Hash}
    (h : Function.update downloads d download d' = .completed target hash) :
    (d' = d ∧ download = .completed target hash) ∨
      (d' ≠ d ∧ downloads d' = .completed target hash) := by
  by_cases heq : d' = d
  · subst heq
    exact .inl ⟨rfl, by simpa using h⟩
  · exact .inr ⟨heq, by simpa [heq] using h⟩

omit [DecidableEq Location] in
/-- A download that moves on without completing and without leaving its target. -/
theorem Protected.move (h : Protected locate blob s) {d : DownloadId} {download : Download}
    (hfetching : ∀ {target hash}, download = .fetching target hash →
      s.files (locate target) = none)
    (hactive : ∀ {target}, download.active = some target →
      (∀ d' target', d' ≠ d → (s.downloads d').active = some target' →
        locate target' ≠ locate target) ∧
      ∀ x content, Kept locate blob s x content → locate target ≠ x)
    (hcompleted : ∀ target hash, download ≠ .completed target hash) :
    Protected locate blob (s.setDownload d download) := by
  have hkept : ∀ {x content}, Kept locate blob (s.setDownload d download) x content →
      Kept locate blob s x content := by
    rintro x content (horiginal | ⟨d', target, hash, hd', hx⟩)
    · exact .inl horiginal
    · rcases completed_update hd' with ⟨-, hd'⟩ | ⟨-, hd'⟩
      · exact absurd hd' (hcompleted _ _)
      · exact .inr ⟨d', target, hash, hd', hx⟩
  refine ⟨fun {d' target hash} hd' => ?_, fun {d₁ d₂ target₁ target₂} h₁ h₂ hne => ?_,
    fun hk => ⟨(h.kept (hkept hk)).1, fun hd' => ?_⟩, fun hd' hd'' hne => ?_⟩
  · by_cases heq : d' = d
    · subst heq
      exact hfetching ((Function.update_self ..).symm.trans hd')
    · exact h.fetching ((Function.update_of_ne heq _ _).symm.trans hd')
  · rcases active_update h₁ with ⟨rfl, hd₁⟩ | ⟨hne₁, hd₁⟩ <;>
      rcases active_update h₂ with ⟨rfl, hd₂⟩ | ⟨hne₂, hd₂⟩
    · exact absurd rfl hne
    · exact ((hactive hd₁).1 d₂ target₂ hne₂ hd₂).symm
    · exact (hactive hd₂).1 d₁ target₁ hne₁ hd₁
    · exact h.apart hd₁ hd₂ hne
  · rcases active_update hd' with ⟨-, hd'⟩ | ⟨-, hd'⟩
    · exact (hactive hd').2 _ _ (hkept hk)
    · exact (h.kept (hkept hk)).2 hd'
  · rcases completed_update hd' with ⟨-, hd'⟩ | ⟨-, hd'⟩
    · exact absurd hd' (hcompleted _ _)
    rcases completed_update hd'' with ⟨-, hd''⟩ | ⟨-, hd''⟩
    · exact absurd hd'' (hcompleted _ _)
    exact h.distinct hd' hd'' hne

/-- A write of an export touches no other download's target and no kept file. -/
theorem Protected.write (h : Protected locate blob s) {d : DownloadId} {target : String}
    {hash : Hash} (hd : s.downloads d = .exporting target hash) (content : List UInt8) :
    Protected locate blob (s.setFile (locate target) content) := by
  have hactive : (s.downloads d).active = some target := by rw [hd]; rfl
  refine ⟨fun {d' target' hash'} hd' => ?_, h.apart, fun {x content'} hk => ⟨?_, (h.kept hk).2⟩,
    h.distinct⟩
  · have hne : d' ≠ d := by
      rintro rfl
      simp [show s.downloads d' = _ from hd'] at hd
    have hactive' : (s.downloads d').active = some target' := by
      rw [show s.downloads d' = _ from hd']
      rfl
    exact (Function.update_of_ne (h.apart hactive' hactive hne) _ _).trans (h.fetching hd')
  · have hne : x ≠ locate target := ((h.kept hk).2 hactive).symm
    exact (Function.update_of_ne hne _ _).trans (h.kept hk).1

/-- The last write of an export, and the return: its file becomes a kept one. -/
theorem Protected.finish (h : Protected locate blob s) {d : DownloadId} {target : String}
    {hash : Hash} (hd : s.downloads d = .exporting target hash) :
    Protected locate blob
      ((s.setFile (locate target) (blob hash)).setDownload d (.completed target hash)) := by
  have hactive : (s.downloads d).active = some target := by rw [hd]; rfl
  have hw := h.write hd (blob hash)
  have hkept : ∀ {x content}, Kept locate blob
      ((s.setFile (locate target) (blob hash)).setDownload d (.completed target hash)) x content →
      Kept locate blob (s.setFile (locate target) (blob hash)) x content ∨
        (x = locate target ∧ content = blob hash) := by
    rintro x content (horiginal | ⟨d', target', hash', hd', hx⟩)
    · exact .inl (.inl horiginal)
    · rcases completed_update hd' with ⟨-, heq⟩ | ⟨-, hd'⟩
      · cases heq
        exact .inr ⟨hx.1.symm, hx.2.symm⟩
      · exact .inl (.inr ⟨d', target', hash', hd', hx⟩)
  refine ⟨fun {d' target' hash'} hd' => ?_, fun {d₁ d₂ target₁ target₂} h₁ h₂ hne => ?_,
    fun {x content} hk => ?_, fun {d₁ d₂ target₁ target₂ _ _} h₁ h₂ hne => ?_⟩
  · by_cases heq : d' = d
    · subst heq
      exact absurd ((Function.update_self ..).symm.trans hd') nofun
    · exact hw.fetching ((Function.update_of_ne heq _ _).symm.trans hd')
  · rcases active_update h₁ with ⟨-, h₁⟩ | ⟨-, h₁⟩
    · cases h₁
    rcases active_update h₂ with ⟨-, h₂⟩ | ⟨-, h₂⟩
    · cases h₂
    exact hw.apart h₁ h₂ hne
  · have hothers : ∀ {d' target'},
        (Function.update s.downloads d (.completed target hash) d').active = some target' →
          d' ≠ d ∧ (s.downloads d').active = some target' := by
      intro d' target' hd'
      rcases active_update hd' with ⟨-, hd'⟩ | hd'
      · cases hd'
      · exact hd'
    rcases hkept hk with hk | ⟨rfl, rfl⟩
    · exact ⟨(hw.kept hk).1, fun hd' => (hw.kept hk).2 (hothers hd').2⟩
    · exact ⟨Function.update_self .., fun hd' => h.apart (hothers hd').2 hactive (hothers hd').1⟩
  · have hold : ∀ {d' target' hash'}, s.downloads d' = .completed target' hash' →
        locate target ≠ locate target' :=
      fun {d' target' hash'} hd' => (h.kept (.inr ⟨d', target', hash', hd', rfl, rfl⟩)).2 hactive
    rcases completed_update h₁ with ⟨rfl, heq₁⟩ | ⟨-, hd₁⟩ <;>
      rcases completed_update h₂ with ⟨rfl, heq₂⟩ | ⟨-, hd₂⟩
    · exact absurd rfl hne
    · cases heq₁
      exact hold hd₂
    · cases heq₂
      exact (hold hd₁).symm
    · exact h.distinct hd₁ hd₂ hne

theorem Protected.step (h : Protected locate blob s) (hexclusive : Exclusive locate s a)
    (hst : Step locate blob s a s') : Protected locate blob s' := by
  cases hst with
  | call | unnamed | found | fail => exact h.move nofun nofun nofun
  | look hd hnone =>
    refine h.move ?_ ?_ nofun
    · rintro _ _ ⟨⟩
      exact hnone
    · rintro _ ⟨⟩
      refine ⟨fun d' target' _ hd' => hexclusive _ _ hd hnone d' target' hd', ?_⟩
      -- a kept file would have been found by the look
      rintro x content hk rfl
      have hfile := (h.kept hk).1
      simp [hnone] at hfile
  | callExport hd =>
    have hactive : ∀ {d target hash}, s.downloads d = .fetching target hash →
        (s.downloads d).active = some target := by
      intro d target hash hd
      rw [hd]
      rfl
    refine h.move nofun ?_ nofun
    rintro _ ⟨⟩
    exact ⟨fun d' target' hne hd' => h.apart hd' (hactive hd) hne,
      fun x content hk => (h.kept hk).2 (hactive hd)⟩
  | write hd => exact h.write hd _
  | finish hd => exact h.finish hd

theorem protected_of_exclusive
    (hs : (machine locate blob).ReachableBy (Exclusive locate) s) : Protected locate blob s := by
  refine hs.invariant (I := Protected locate blob) ?_ ?_
  · rintro s ⟨hfiles, hnone⟩
    refine ⟨by simp [hnone], by simp [hnone, Download.active], fun hk => ?_, by simp [hnone]⟩
    rcases hk with horiginal | ⟨d, _, _, hd, -⟩
    · exact ⟨hfiles ▸ horiginal, by simp [hnone, Download.active]⟩
    · simp [hnone] at hd
  · intro s a s' _ h hexclusive hst
    exact h.step hexclusive (step_spec hst)

/-- **No file is overwritten while looks keep apart.**  In every run in which no look
passes while another download of that target is between its look and its return: when
`download` calls the export there is no file at its target, files that were there at
first or that a completed download exported keep their content, and two downloads that
returned `Ok` have different targets. -/
theorem existing_files_protected
    (hs : (machine locate blob).ReachableBy (Exclusive locate) s) :
    (∀ d s', (machine locate blob).step s (.callExport d) = some s' →
      ∃ target hash, s'.downloads d = .exporting target hash ∧ s.files (locate target) = none) ∧
    (∀ x content, s.original x = some content → s.files x = some content) ∧
    (∀ d target hash, s.downloads d = .completed target hash →
      s.files (locate target) = some (blob hash)) ∧
    ∀ d d' target target' hash hash', s.downloads d = .completed target hash →
      s.downloads d' = .completed target' hash' → d ≠ d' →
      locate target ≠ locate target' ∧ target ≠ target' := by
  have h := protected_of_exclusive hs
  refine ⟨fun d s' hst => ?_, fun x content horiginal => (h.kept (.inl horiginal)).1,
    fun d target hash hd => (h.kept (.inr ⟨d, target, hash, hd, rfl, rfl⟩)).1,
    fun d d' target target' hash hash' hd hd' hne => ?_⟩
  · have hst : s.step locate blob (.callExport d) = some s' := hst
    cases step_spec hst with
    | callExport hd => exact ⟨_, _, Function.update_self .., h.fetching hd⟩
  · have hlocate := h.distinct hd hd' hne
    exact ⟨hlocate, fun heq => hlocate (congrArg locate heq)⟩

/-- The offer of another file. -/
def otherOffer : Offer :=
  { Offer.sampleOffer with
    filename := "c.txt"
    ticket := { Offer.sampleTicket with hash := ⟨8⟩ } }

/-- Two files and then the first one again are accepted into one folder.  The second look
passes while the first download is fetching, the third one finds the first file. -/
def threeDownloads : List Action :=
  [.call 0 "/tmp" Offer.sampleOffer, .call 1 "/tmp" otherOffer, .call 2 "/tmp" Offer.sampleOffer,
    .look 0, .look 1, .callExport 0, .finish 0, .look 2]

/-- A folder with one file, and no download yet. -/
def oneFile : Folder String where
  files := Function.update (fun _ => none) "/tmp/b.txt" (some [9])
  original := Function.update (fun _ => none) "/tmp/b.txt" (some [9])
  downloads _ := .none

/-- The contents of the two offers. -/
def twoBlobs (hash : Hash) : List UInt8 := if hash = ⟨7⟩ then [1, 2, 3] else [4, 5]

theorem threeDownloads_exclusive :
    (machine id twoBlobs).Meets (Exclusive id) oneFile threeDownloads := by
  refine ⟨trivial, ?_⟩
  rintro _ ⟨⟩
  refine ⟨trivial, ?_⟩
  rintro _ ⟨⟩
  refine ⟨trivial, ?_⟩
  rintro _ ⟨⟩
  refine ⟨?_, ?_⟩
  · -- the others have not looked yet
    rintro target hash - - d' target' hactive
    match d' with
    | 0 | 1 | 2 | _ + 3 => cases hactive
  rintro _ ⟨⟩
  refine ⟨?_, ?_⟩
  · -- the first one is fetching another file
    rintro target hash ⟨⟩ - d' target' hactive
    match d' with
    | 0 =>
      cases hactive
      decide
    | 1 | 2 | _ + 3 => cases hactive
  rintro _ ⟨⟩
  refine ⟨trivial, ?_⟩
  rintro _ ⟨⟩
  refine ⟨trivial, ?_⟩
  rintro _ ⟨⟩
  refine ⟨?_, ?_⟩
  · rintro target hash ⟨⟩ hnone
    cases hnone
  exact fun _ _ => trivial

theorem existing_files_protected_threeDownloads : ∃ s s' : Folder String,
    (machine id twoBlobs).exec oneFile threeDownloads = some s ∧
    (machine id twoBlobs).exec s [.callExport 1, .finish 1] = some s' ∧
    s.downloads 2 = .failed ∧ s.files "/tmp/c.txt" = none ∧
    s'.downloads 0 = .completed "/tmp/a.txt" ⟨7⟩ ∧ s'.downloads 1 = .completed "/tmp/c.txt" ⟨8⟩ ∧
    "/tmp/a.txt" ≠ "/tmp/c.txt" ∧ s'.files "/tmp/a.txt" = some [1, 2, 3] ∧
    s'.files "/tmp/b.txt" = some [9] ∧ s'.files "/tmp/c.txt" = some [4, 5] := by
  have hstart : (machine id twoBlobs).ReachableBy (Exclusive id) oneFile :=
    .init ⟨rfl, fun _ => rfl⟩
  have hs := hstart.exec threeDownloads_exclusive rfl
  have hexport := (existing_files_protected hs).1 1 _ rfl
  have hexporting := hs.step (a := Action.callExport 1) trivial rfl
  have h := existing_files_protected (hexporting.step (a := Action.finish 1) trivial rfl)
  obtain ⟨target, hash, hd, hnone⟩ := hexport
  cases hd
  exact ⟨_, _, rfl, rfl, rfl, hnone, rfl, rfl,
    (h.2.2.2 0 1 "/tmp/a.txt" "/tmp/c.txt" ⟨7⟩ ⟨8⟩ rfl rfl (by decide)).2,
    h.2.2.1 0 "/tmp/a.txt" ⟨7⟩ rfl, h.2.1 _ _ rfl, h.2.2.1 1 "/tmp/c.txt" ⟨8⟩ rfl⟩

/-- Two offers of one name, accepted into one folder, whose looks both come before either
export. -/
def overlappingDownloads : List Action :=
  [.call 0 "/tmp" Offer.sampleOffer,
    .call 1 "/tmp" { Offer.sampleOffer with ticket := { Offer.sampleTicket with hash := ⟨8⟩ } },
    .look 0, .look 1, .callExport 0, .finish 0]

/-- The second download exports over the file of the first, and both return `Ok`. -/
theorem overlappingDownloads_overwrite : ∃ s s' : Folder String,
    (machine id twoBlobs).Reachable s ∧ s.downloads 1 = .fetching "/tmp/a.txt" ⟨8⟩ ∧
    s.downloads 0 = .completed "/tmp/a.txt" ⟨7⟩ ∧ s.files "/tmp/a.txt" = some [1, 2, 3] ∧
    (machine id twoBlobs).exec s [.callExport 1, .finish 1] = some s' ∧
    s'.downloads 0 = .completed "/tmp/a.txt" ⟨7⟩ ∧ s'.downloads 1 = .completed "/tmp/a.txt" ⟨8⟩ ∧
    s'.files "/tmp/a.txt" = some [4, 5] := by
  have hstart : (machine id twoBlobs).Reachable oneFile := .init ⟨rfl, fun _ => rfl⟩
  exact ⟨_, _, hstart.exec (rfl : (machine id twoBlobs).exec oneFile overlappingDownloads = some _),
    rfl, rfl, rfl, rfl, rfl, rfl, rfl⟩

/-- A look that passes while another download is between its look and its return can
always end in an export over the file of the other. -/
theorem overlap_overwrites {d d' : DownloadId} {target target' : String} {hash : Hash}
    (hd : s.downloads d = .checking target hash) (hnone : s.files (locate target) = none)
    (hd' : (s.downloads d').active = some target') (hsame : locate target' = locate target) :
    ∃ as s', (machine locate blob).exec s (.look d :: as) = some s' ∧
      s'.downloads d = .fetching target hash ∧ s'.files (locate target) ≠ none := by
  have hne : d ≠ d' := by
    rintro rfl
    simp [hd, Download.active] at hd'
  have hfinal : ∀ hash', let s' := ((s.setDownload d (.fetching target hash)).setFile
      (locate target') (blob hash')).setDownload d' (.completed target' hash')
      s'.downloads d = .fetching target hash ∧ s'.files (locate target) ≠ none := by
    intro hash'
    simp [setDownload, setFile, hne, hsame]
  cases h' : s.downloads d' with
  | none | checking | completed | failed => simp [h', Download.active] at hd'
  | fetching target'' hash' =>
    cases (show some target'' = some target' by rwa [h'] at hd')
    refine ⟨[.callExport d', .finish d'], _, ?_, hfinal hash'⟩
    simp [Machine.exec, machine, step, hd, hnone, h', setDownload, setFile, hne.symm]
  | exporting target'' hash' =>
    cases (show some target'' = some target' by rwa [h'] at hd')
    refine ⟨[.finish d'], _, ?_, hfinal hash'⟩
    simp [Machine.exec, machine, step, hd, hnone, h', setDownload, setFile, hne.symm]

end Folder
end IrohShare
