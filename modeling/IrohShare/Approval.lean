import IrohShare.Receiver

/-!
# What the user is shown and what is saved

An offer reaches the user as the `IncomingOffer` view of the interface or as the
`confirm` prompt of the terminal, and reaches the disk through `download`.  The two
ways meet only in the offer itself: the name is cut down to its last component on
the way to the disk, and the size shown is the one the peer declared.
-/
namespace IrohShare
open ByteStream

/-! ## The two views of an offer -/

structure IncomingOffer where
  id : Nat
  filename : String
  filesize : UInt64
  sender : String
  deriving DecidableEq, Repr

/-- `sender_name`: the name of the first known peer with that id. -/
def senderName (peers : List (String × EndpointAddr)) (id : EndpointId) : String :=
  match peers.find? (fun peer => peer.2.id = id) with
  | some peer => peer.1
  | none => "Unknown device"

/-- The view `forward_offers` makes of an offer. -/
def IncomingOffer.new (id : Nat) (peers : List (String × EndpointAddr)) (offer : Offer) :
    IncomingOffer where
  id := id
  filename := offer.filename
  filesize := offer.filesize
  sender := senderName peers offer.ticket.addr.id

/-- The line `confirm` prints. -/
def confirmPrompt (offer : Offer) : String :=
  s!"{offer.filename} ({offer.filesize} Bytes) accept? [y/n]"

/-- The characters `str::trim` removes. -/
def isWhiteSpace (c : Char) : Bool :=
  let n := c.toNat
  (0x9 ≤ n && n ≤ 0xD) || n = 0x20 || n = 0x85 || n = 0xA0 || n = 0x1680 ||
    (0x2000 ≤ n && n ≤ 0x200A) || n = 0x2028 || n = 0x2029 || n = 0x202F || n = 0x205F || n = 0x3000

/-- What `confirm` makes of the answered line. -/
def confirm (answer : String) : Bool :=
  let trimmed := ((answer.toList.dropWhile isWhiteSpace).reverse.dropWhile isWhiteSpace).reverse
  trimmed.map Char.toLower == ['y']

/-- The decision of the terminal loop. -/
def terminalDecision (downloadDir : String) (answer : String) : OfferDecision :=
  if confirm answer then .accept downloadDir else .decline

example : terminalDecision "/tmp" " Y\n" = .accept "/tmp" := by decide

/-! ## From the view to the disk -/

/-- **What is saved, in terms of what was shown.**  Of any offer a peer gets past
`read_from` and the identity check, a successful `download` writes one file: its name
is the last component of the shown name, so it is the shown name exactly when that
is a single component; its content is the blob the ticket names, so its length is the
shown size exactly when the peer declared it truly; and the last value published is
the shown size.  The prompt of the terminal shows the same name and size. -/
theorem saved_of_shown {codec : TicketCodec} {remote : EndpointId} {arrived : RecvStream}
    {offer : Offer} {rest : RecvStream}
    (_hread : (receiveOffer codec remote).run arrived = .ok offer rest)
    {host : Host} {dir : String} {s s' : Receiving}
    (hdownload : (download host dir offer).run s = .ok () s')
    (id : Nat) (peers : List (String × EndpointAddr)) :
    let shown := IncomingOffer.new id peers offer
    let content := host.blob offer.ticket.hash
    confirmPrompt offer = s!"{shown.filename} ({shown.filesize} Bytes) accept? [y/n]" ∧
    ∃ name earlier,
      s'.files = s.files ++ [(Path.join dir name, content)] ∧
      Path.fileName shown.filename = some name ∧
      (name = shown.filename ↔ Path.IsComponent shown.filename) ∧
      s'.progress = earlier ++ [shown.filesize] ∧
      (content.length = shown.filesize.toNat ↔
        ∃ last, s'.progress.getLast? = some last ∧ content.length = last.toNat) := by
  obtain ⟨name, hname, -, hfiles, earlier, hprogress⟩ := download_ok hdownload
  refine ⟨rfl, name, earlier, hfiles, hname, ?_, hprogress, ?_⟩
  · show name = offer.filename ↔ Path.IsComponent offer.filename
    rw [← Path.fileName_eq_self_iff, hname, Option.some_inj]
  · simp [hprogress, IncomingOffer.new]

/-- A host on which everything succeeds, and every hash names `content`. -/
def obligingHost (content : List UInt8) : Host where
  tryExists _ := .ok false
  tempTag _ _ := .ok ()
  downloadStream _ _ := .ok [.progress 1, .other]
  exportBlob _ _ := .ok ()
  blob _ := content

theorem saved_of_shown_sample :
    ∃ name earlier,
      (final
      ((download (obligingHost [1, 2, 3]) "/tmp" Offer.sampleOffer).run { send := {} })).files
        = [(Path.join "/tmp" name, [1, 2, 3])] ∧
      (final ((download (obligingHost [1, 2, 3]) "/tmp" Offer.sampleOffer).run
        { send := {} })).progress = earlier ++ [3] ∧
      name = "a.txt" := by
  have hread : (receiveOffer Offer.sampleCodec ⟨1⟩).run
      ⟨Offer.sampleOffer.encoded Offer.sampleCodec, true⟩ = .ok Offer.sampleOffer ⟨[], true⟩ := by
    rfl
  have hdownload : (download (obligingHost [1, 2, 3]) "/tmp" Offer.sampleOffer).run { send := {} }
      = .ok () (final ((download (obligingHost [1, 2, 3]) "/tmp" Offer.sampleOffer).run
        { send := {} })) := by
    rfl
  obtain ⟨-, name, earlier, hfiles, -, hname, hprogress, -⟩ := saved_of_shown hread hdownload 1 []
  exact ⟨name, earlier, hfiles, hprogress, hname.mpr (Path.fileName_eq_self_iff.mp (by decide))⟩

/-- An offer of `docs/report.pdf`, five bytes. -/
def embellishedOffer : Offer := ⟨"docs/report.pdf", 5, Offer.sampleTicket⟩

/-- The embellished offer gets past every check; the file saved has another name and
another length than shown, and the last value published is not its length. -/
theorem embellishedOffer_saved_otherwise :
    (∃ rest, (receiveOffer Offer.sampleCodec ⟨1⟩).run
      ⟨embellishedOffer.encoded Offer.sampleCodec, true⟩ = .ok embellishedOffer rest) ∧
    ∃ s', (download (obligingHost [1, 2]) "/tmp" embellishedOffer).run { send := {} } = .ok () s' ∧
      s'.files = [(Path.join "/tmp" "report.pdf", [1, 2])] ∧
      s'.progress.getLast? = some 5 ∧
      (IncomingOffer.new 1 [] embellishedOffer).filename ≠ "report.pdf" ∧
      (IncomingOffer.new 1 [] embellishedOffer).filesize ≠ 2 := by
  refine ⟨⟨⟨[], true⟩, by rfl⟩, _, rfl, by decide, by decide, by decide, by decide⟩

end IrohShare
