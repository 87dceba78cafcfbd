import IrohShare.OfferGrammar
import IrohShare.Receiver

/-!
# The name of a saved file

`run_sender` puts the last component of its path into the offer, and `download` takes the
last component of whatever name an offer holds.  The target of a download is therefore one
component below the directory, and the name of an honest sender arrives as it was.
-/
namespace IrohShare
open ByteStream

/-- The offer that `run_sender` makes of a path and of what it finds there.  The path is a
string, so that its last component is one. -/
def senderOffer (filename : String) (filesize : UInt64) (ticket : BlobTicket) :
    Except String Offer :=
  match Path.fileName filename with
  | some safeName => .ok { filename := safeName, filesize, ticket }
  | none => .error "invalid filename"

/-- The same host, with a file system that has one path only. -/
def Host.onlyAt (host : Host) (target : String) : Host :=
  { host with
    tryExists := fun path => if path = target then host.tryExists path else .error "no such path"
    exportBlob := fun hash path =>
      if path = target then host.exportBlob hash path else .error "no such path" }

variable {host : Host} {dir : String} {offer : Offer}

/-- An offer without a name to save under asks the host nothing and changes nothing. -/
theorem download_of_no_name (h : Path.fileName offer.filename = none) (s : Receiving) :
    (download host dir offer).run s = .error "offer contains no filename" s := by
  rw [download, h, EStateM.run_bind]
  rfl

/-- The file system is asked about the target and about nothing else. -/
theorem download_onlyAt {name : String} (h : Path.fileName offer.filename = some name) :
    download host dir offer = download (host.onlyAt (Path.join dir name)) dir offer := by
  simp [download, h, Host.onlyAt, orThrow]

/-- `P` survives a failure of the operation. -/
def KeepsOnError {α : Type} (P : Receiving → Prop) (x : EStateM String Receiving α) : Prop :=
  ∀ s, P s → ∀ e s', x.run s = .error e s' → P s'

theorem KeepsOnError.bind {α β : Type} {P : Receiving → Prop} {x : EStateM String Receiving α}
    {f : α → EStateM String Receiving β} (hx : Keeps P x) (hf : ∀ a, KeepsOnError P (f a)) :
    KeepsOnError P (x >>= f) := by
  intro s hs e s' hrun
  have hkeep := hx s hs
  rw [EStateM.run_bind] at hrun
  cases hr : x.run s with
  | ok a t =>
    rw [hr] at hrun hkeep
    exact hf a t hkeep e s' hrun
  | error e' t =>
    rw [hr] at hrun hkeep
    cases hrun
    exact hkeep

/-- A download that fails has written no file. -/
theorem keepsOnError_download (files : List (String × List UInt8)) :
    KeepsOnError (fun s => s.files = files) (download host dir offer) := by
  refine .bind (.orThrow _ _) (fun name => ?_)
  refine .bind (keeps_ask _) (fun there => ?_)
  split
  · exact fun s hs e s' hrun => by cases hrun; exact hs
  refine .bind (keeps_ask _) (fun _ => ?_)
  refine .bind (.context (keeps_ask _)) (fun items => ?_)
  refine .bind (keeps_forwardItems (keeps_files_sendProgress files) items) (fun _ => ?_)
  refine .bind (.context (keeps_ask _)) (fun _ => ?_)
  -- what is left cannot fail
  intro s _ e s' hrun
  cases hrun

/-- Whatever becomes of a download, it writes the target or nothing. -/
theorem download_files {name : String} (h : Path.fileName offer.filename = some name)
    (s : Receiving) :
    (final ((download host dir offer).run s)).files = s.files ∨
      (final ((download host dir offer).run s)).files =
        s.files ++ [(Path.join dir name, host.blob offer.ticket.hash)] := by
  cases hrun : (download host dir offer).run s with
  | ok u s' =>
    obtain ⟨name', hname, -, hfiles, -⟩ := download_ok hrun
    rw [h] at hname
    cases hname
    exact .inr hfiles
  | error e s' => exact .inl (keepsOnError_download s.files s rfl e s' hrun)

/-- The name of an offer survives the stream. -/
theorem filename_of_transmitted {codec : TicketCodec} {sent received : Offer} {s s' : SendStream}
    {fin : Bool} (hempty : s.sent = []) (hwrite : (sent.writeTo codec).run s = .ok () s')
    (hread : outcome ((Offer.readFrom codec).run ⟨s'.sent, fin⟩) = .ok received) :
    received.filename = sent.filename := by
  obtain ⟨hsent, -, hfits⟩ := Offer.writeTo_ok hwrite
  cases hrun : (Offer.readFrom codec).run ⟨s'.sent, fin⟩ with
  | error e r =>
    rw [hrun] at hread
    cases hread
  | ok o r =>
    rw [hrun] at hread
    cases hread
    obtain ⟨⟨text, hbytes, hname, -, -⟩, -⟩ := Offer.readFrom_ok hrun
    rw [hsent, hempty, List.nil_append, Offer.encoded_eq_layout] at hbytes
    exact (Offer.layout_inj hfits (Nat.lt_of_le_of_lt hname (by decide)) hbytes).1.symm

/-- **A received file stays in the chosen directory and keeps its name.**  For every name
and directory, a download fails at once, whatever the host, or concerns one path, which is
the directory extended by a single component and has it as parent.  For every path that
`run_sender` makes an offer of, an offer that gets through has the name found by the
sender, which is the component that `download` extends the directory by. -/
theorem saved_name :
    (∀ (dir : String) (offer : Offer),
      (Path.fileName offer.filename = none ∧ ∀ host s,
        (download host dir offer).run s = .error "offer contains no filename" s) ∨
      ∃ name, Path.fileName offer.filename = some name ∧ Path.IsComponent name ∧
        Path.parts (Path.join dir name) = Path.parts dir ++ [.normal name] ∧
        Path.parent (Path.join dir name) = some (Path.parts dir) ∧
        ∀ host, download host dir offer = download (host.onlyAt (Path.join dir name)) dir offer ∧
          ∀ s, (final ((download host dir offer).run s)).files = s.files ∨
            (final ((download host dir offer).run s)).files =
              s.files ++ [(Path.join dir name, host.blob offer.ticket.hash)]) ∧
    (∀ codec filename filesize ticket offer s s' fin received,
      senderOffer filename filesize ticket = .ok offer → s.sent = [] →
      (offer.writeTo codec).run s = .ok () s' →
      outcome ((Offer.readFrom codec).run ⟨s'.sent, fin⟩) = .ok received →
      received.filename = offer.filename ∧
        Path.fileName received.filename = some offer.filename ∧
        Path.fileName received.filename = Path.fileName filename) := by
  refine ⟨fun dir offer => ?_, ?_⟩
  · cases hname : Path.fileName offer.filename with
    | none => exact .inl ⟨rfl, fun host s => download_of_no_name hname s⟩
    | some name =>
      have hcomponent := Path.isComponent_of_fileName hname
      exact .inr ⟨name, rfl, hcomponent, Path.parts_join dir hcomponent,
        Path.parent_join dir hcomponent,
        fun host => ⟨download_onlyAt hname, fun s => download_files hname s⟩⟩
  · intro codec filename filesize ticket offer s s' fin received hoffer hempty hwrite hread
    have hsame := filename_of_transmitted hempty hwrite hread
    unfold senderOffer at hoffer
    split at hoffer
    · rename_i safeName hsafe
      cases hoffer
      have hagain := Path.fileName_eq_self_iff.mpr (Path.isComponent_of_fileName hsafe)
      have hreceived : Path.fileName received.filename = some safeName := by rw [hsame, hagain]
      exact ⟨hsame, hreceived, hreceived.trans hsafe.symm⟩
    · cases hoffer

/-- A hostile name is cut down to a component, and an honest one arrives. -/
theorem saved_name_sample :
    (∃ name, Path.fileName "/etc/../passwd/." = some name ∧
      Path.parts (Path.join "/tmp" name) = [.rootDir, .normal "tmp", .normal "passwd"]) ∧
    Path.fileName Offer.sampleOffer.filename = Path.fileName "/home/a.txt" := by
  obtain ⟨htarget, hname⟩ := saved_name
  refine ⟨?_, ?_⟩
  · rcases htarget "/tmp" ⟨"/etc/../passwd/.", 3, Offer.sampleTicket⟩ with ⟨hnone, -⟩ | h
    · exact absurd hnone (by decide)
    · obtain ⟨name, hfile, -, hparts, -⟩ := h
      have hpasswd : name = "passwd" := Option.some.inj (hfile.symm.trans (by decide))
      exact ⟨name, hfile, hparts.trans (by rw [hpasswd]; decide)⟩
  · exact (hname Offer.sampleCodec "/home/a.txt" 3 Offer.sampleTicket Offer.sampleOffer {} _ true _
      (by decide) rfl (Offer.writeTo_of_open (by decide)) (by rfl)).2.2

end IrohShare
