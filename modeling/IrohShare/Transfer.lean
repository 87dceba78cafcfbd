import IrohShare.AbsolutePath
import IrohShare.Approval
import IrohShare.SavedName
import IrohShare.Verdict

/-!
# A transfer from file to file

`run_sender` from its first line, `OfferProtocol::accept`, and the connection between
them.  The sender's machine is a `Source`, the receiver's a `Recipient` with the answer
its user gives to the offer that is shown, and `Link` says what the connection does to
the bytes of either direction.

Two things are relied on of the code that carries them: the text of a ticket is parsed
back to the ticket, and the store gives for a hash what it was given under that hash,
since a blob is checked against its hash as it comes in.
-/
namespace IrohShare
open ByteStream Receiving

/-! ## The two machines and the connection -/

/-- What `metadata` says of a path. -/
structure Metadata where
  isFile : Bool
  len : UInt64
  deriving DecidableEq, Repr

/-- The sender's machine.  `content` is what `add_path` finds at a path when it hashes
it, which is after `metadata` has looked. -/
structure Source where
  currentDir : Except String String
  metadata : String → Except String Metadata
  addPath : String → Except String (Hash × BlobFormat)
  content : String → List UInt8
  endpoint : EndpointId

/-- The receiver's machine and its user. -/
structure Recipient where
  host : Host
  decide : Offer → DecisionWait
  watched : Bool := true

/-- The connection: whether it is made, how much of the offer can be written and, if it is
cut, how much arrives; the same for the answer; and whether the answer is late. -/
structure Link where
  connect : Except String Unit := .ok ()
  offerRoom : Option Nat := none
  offerCut : Option Nat := none
  answerRoom : Option Nat := none
  answerCut : Option Nat := none
  answerFin : Bool := true
  late : Bool := false

/-- What arrives of the offer; its end arrives after all of it. -/
def Link.offerArrived (link : Link) (send : SendStream) : RecvStream :=
  match link.offerCut with
  | some n => ⟨send.sent.take n, false⟩
  | none => ⟨send.sent, send.finished⟩

/-- What arrives of the answer. -/
def Link.answerArrived (link : Link) (sent : List UInt8) : List UInt8 :=
  match link.answerCut with
  | some n => sent.take n
  | none => sent

theorem Link.answerArrived_eq_take (link : Link) (sent : List UInt8) :
    link.answerArrived sent = sent.take (link.answerCut.getD sent.length) := by
  unfold Link.answerArrived
  split <;> simp_all

/-- `run_sender` up to the connection. -/
def prepareOffer (source : Source) (filename : String) : Except String Offer := do
  let safeName ← match Path.fileName filename with
    | some name => .ok name
    | none => .error "invalid filename"
  let absPath ← Path.absolute source.currentDir filename
  let metadata ← source.metadata absPath
  if !metadata.isFile then .error s!"{absPath} is not a regular file"
  else do
    let (hash, format) ← source.addPath absPath
    .ok { filename := safeName, filesize := metadata.len,
          ticket := { addr := { id := source.endpoint, addrs := [] }, hash, format } }

/-- `OfferProtocol::accept` on what has arrived: the offer it shows, and its session. -/
def receiverSide (codec : TicketCodec) (remote : EndpointId) (recipient : Recipient) (link : Link)
    (arrived : RecvStream) : Option (Offer × Receiving) :=
  match (receiveOffer codec remote).run arrived with
  | .ok offer _ =>
    some (offer, session recipient.host offer (recipient.decide offer) link.answerRoom
      recipient.watched)
  | .error _ _ => none

/-- `run_sender` against its receiver: what it returns, and what became of the offer. -/
def transfer (codec : TicketCodec) (source : Source) (recipient : Recipient) (link : Link)
    (filename : String) : Except String SendOutcome × Option (Offer × Receiving) :=
  match prepareOffer source filename with
  | .error e => (.error e, none)
  | .ok offer =>
    match link.connect with
    | .error e => (.error e, none)
    | .ok () =>
      match (offer.writeTo codec).run { room := link.offerRoom } with
      | .error e send =>
        (.error e, receiverSide codec source.endpoint recipient link (link.offerArrived send))
      | .ok () send =>
        let received := receiverSide codec source.endpoint recipient link (link.offerArrived send)
        let sent := (received.map (fun (_, receiving) => receiving.send.sent)).getD []
        (if link.late then .error "receiver did not respond within 60 seconds"
         else outcome (verdict (link.answerArrived sent) link.answerFin), received)

/-! ## The offer -/

variable {codec : TicketCodec} {source : Source} {recipient : Recipient} {link : Link}
  {filename : String} {offer : Offer}

/-- What is known of an offer that `run_sender` makes. -/
theorem prepareOffer_ok (h : prepareOffer source filename = .ok offer) :
    ∃ path len format, Path.fileName filename = some offer.filename ∧
      Path.absolute source.currentDir filename = .ok path ∧
      source.metadata path = .ok ⟨true, len⟩ ∧
      source.addPath path = .ok (offer.ticket.hash, format) ∧ offer.filesize = len ∧
      offer.ticket = ⟨⟨source.endpoint, []⟩, offer.ticket.hash, format⟩ := by
  unfold prepareOffer at h
  cases hname : Path.fileName filename with
  | none => simp [hname, bind, Except.bind] at h
  | some name =>
    cases hpath : Path.absolute source.currentDir filename with
    | error e => simp [hname, hpath, bind, Except.bind] at h
    | ok path =>
      cases hmetadata : source.metadata path with
      | error e => simp [hname, hpath, hmetadata, bind, Except.bind] at h
      | ok metadata =>
        obtain ⟨isFile, len⟩ := metadata
        cases isFile with
        | false => simp [hname, hpath, hmetadata, bind, Except.bind] at h
        | true =>
          cases hadd : source.addPath path with
          | error e => simp [hname, hpath, hmetadata, hadd, bind, Except.bind] at h
          | ok entry =>
            obtain ⟨hash, format⟩ := entry
            simp only [hname, hpath, hmetadata, hadd, bind, Except.bind, Bool.not_true,
              Bool.false_eq_true, if_false, Except.ok.injEq] at h
            subst h
            exact ⟨path, len, format, rfl, rfl, hmetadata, hadd, rfl, rfl⟩

theorem keeps_unfinished_writeAll (bs : List UInt8) :
    Keeps (fun s : SendStream => s.finished = false) (SendStream.writeAll bs) := by
  intro s hs
  cases h : (SendStream.writeAll bs).run s with
  | ok a t => exact (SendStream.writeAll_ok h).2.1.trans hs
  | error e t => exact (SendStream.writeAll_error hs h).1

/-- A stream on which `write_to` has failed was not ended. -/
theorem writeTo_error_unfinished {s s' : SendStream} {e : String} (hs : s.finished = false)
    (h : (offer.writeTo codec).run s = .error e s') : s'.finished = false := by
  have horThrow : Keeps (fun s : SendStream => s.finished = false)
      (orThrow "number too large to fit in target type"
        (Offer.lenU16 (utf8Bytes offer.filename).length)) := .orThrow _ _
  obtain h | ⟨len, s₁, h₁, h⟩ := bind_error h
  · exact horThrow.of_error hs h
  have hs := horThrow.of_ok hs h₁
  obtain h | ⟨⟨⟩, s₂, h₂, h⟩ := bind_error h
  · exact (keeps_unfinished_writeAll _).of_error hs h
  have hs := (keeps_unfinished_writeAll _).of_ok hs h₂
  obtain h | ⟨⟨⟩, s₃, h₃, h⟩ := bind_error h
  · exact (keeps_unfinished_writeAll _).of_error hs h
  have hs := (keeps_unfinished_writeAll _).of_ok hs h₃
  obtain h | ⟨⟨⟩, s₄, h₄, h⟩ := bind_error h
  · exact (keeps_unfinished_writeAll _).of_error hs h
  have hs := (keeps_unfinished_writeAll _).of_ok hs h₄
  obtain h | ⟨⟨⟩, s₅, h₅, h⟩ := bind_error h
  · exact (keeps_unfinished_writeAll _).of_error hs h
  rw [SendStream.finish_error h]
  exact (keeps_unfinished_writeAll _).of_ok hs h₅

/-- **What is shown is what was prepared.**  The receiver shows an offer only if all of it
and the end of its stream arrived, and then it is the offer that was written. -/
theorem receiverSide_some (hparse : codec.parse (codec.print offer.ticket) = some offer.ticket)
    {room : Option Nat} {remote : EndpointId} {shown : Offer} {receiving : Receiving}
    (h : receiverSide codec remote recipient link (link.offerArrived
      (final ((offer.writeTo codec).run { room }))) = some (shown, receiving)) :
    shown = offer ∧ (∃ send, (offer.writeTo codec).run { room } = .ok () send) ∧
      receiving = session recipient.host offer (recipient.decide offer) link.answerRoom
        recipient.watched := by
  unfold receiverSide at h
  split at h
  · rename_i shown' rest hrun
    cases h
    obtain ⟨shown', rest', hread, hcheck⟩ := bind_ok hrun
    split at hcheck
    · cases hcheck
    cases hcheck
    obtain ⟨⟨text, hbytes, hname, -, htext⟩, hfin⟩ := Offer.readFrom_ok hread
    have hcut : link.offerCut = none := by
      cases hcut : link.offerCut with
      | none => rfl
      | some n => simp [Link.offerArrived, hcut] at hfin
    rw [Link.offerArrived, hcut] at hbytes hfin
    cases hwrite : (offer.writeTo codec).run { room } with
    | error e send =>
      rw [hwrite] at hfin
      have hopen := writeTo_error_unfinished (by rfl) hwrite
      rw [show send.finished = true from hfin] at hopen
      cases hopen
    | ok u send =>
      rw [hwrite] at hbytes
      obtain ⟨hsent, -, hfits⟩ := Offer.writeTo_ok hwrite
      have hbytes : send.sent =
        Offer.layout shown.filename shown.filesize (utf8Bytes text) := hbytes
      rw [hsent, List.nil_append, Offer.encoded_eq_layout] at hbytes
      obtain ⟨hname', hsize, hticket⟩ :=
        Offer.layout_inj hfits (Nat.lt_of_le_of_lt hname (by decide)) hbytes
      rw [← utf8Bytes_injective hticket, hparse] at htext
      have hshown : shown = offer := by
        cases shown
        cases offer
        simp_all
      subst hshown
      exact ⟨rfl, ⟨send, rfl⟩, rfl⟩
  · cases h

/-- An offer that is written and arrives whole is shown, unless its name or the text of its
ticket is too long. -/
theorem receiverSide_isSome (hparse : codec.parse (codec.print offer.ticket) = some offer.ticket)
    (hcut : link.offerCut = none) :
    (receiverSide codec offer.ticket.addr.id recipient link
      (link.offerArrived (final ((offer.writeTo codec).run {})))).isSome = true ↔
      (utf8Bytes offer.filename).length ≤ 255 ∧
        (utf8Bytes (codec.print offer.ticket)).length ≤ 4096 := by
  constructor
  · intro hsome
    obtain ⟨⟨shown, receiving⟩, h⟩ := Option.isSome_iff_exists.mp hsome
    obtain ⟨rfl, ⟨send, hwrite⟩, -⟩ := receiverSide_some hparse h
    unfold receiverSide at h
    split at h
    · rename_i shown' rest hrun
      cases h
      obtain ⟨shown', rest', hread, hcheck⟩ := bind_ok hrun
      split at hcheck
      · cases hcheck
      cases hcheck
      obtain ⟨⟨text, hbytes, hname, hlimit, -⟩, -⟩ := Offer.readFrom_ok hread
      obtain ⟨hsent, -, hfits⟩ := Offer.writeTo_ok hwrite
      rw [hwrite, Link.offerArrived, hcut] at hbytes
      have hbytes : send.sent =
        Offer.layout shown.filename shown.filesize (utf8Bytes text) := hbytes
      rw [hsent, List.nil_append, Offer.encoded_eq_layout] at hbytes
      obtain ⟨-, -, hticket⟩ := Offer.layout_inj hfits hfits hbytes
      exact ⟨hname, hticket ▸ hlimit⟩
    · cases h
  · rintro ⟨hname, hlimit⟩
    have hwrite : (offer.writeTo codec).run {} =
        .ok () { sent := offer.encoded codec, finished := true } :=
      Offer.writeTo_of_open (Nat.lt_of_le_of_lt hname (by decide))
    have hread := Offer.readFrom_encoded hname hlimit hparse
    have hreceive : (receiveOffer codec offer.ticket.addr.id).run
        ⟨offer.encoded codec, true⟩ = .ok offer ⟨[], true⟩ := by
      rw [receiveOffer, EStateM.run_bind, hread]
      simp
    rw [hwrite, receiverSide, Link.offerArrived, hcut]
    simp only [final_ok, hreceive, Option.isSome_some]

/-! ## The session -/

theorem keeps_onSend {α : Type} {P : Receiving → Prop} (hP : ∀ s send, P s → P { s with send })
    (x : EStateM String SendStream α) : Keeps P (onSend x) := by
  intro s hs
  cases h : (onSend x).run s with
  | ok a t =>
    obtain ⟨send, -, rfl⟩ := onSend_ok h
    exact hP s send hs
  | error e t =>
    obtain ⟨send, -, rfl⟩ := onSend_error h
    exact hP s send hs

theorem keeps_attempt {α : Type} {P : Receiving → Prop} {x : EStateM String Receiving α}
    (hx : Keeps P x) : Keeps P (attempt x) := by
  intro s hs
  rw [attempt_run]
  exact hx s hs

/-- The file of a session is the one that `download` saved. -/
inductive Saved (host : Host) (offer : Offer) (wait : DecisionWait) (s : Receiving) : Prop
  | file (dir name : String) : wait.decisionUi = some (.accept dir) →
      Path.fileName offer.filename = some name → s.returned = some (.ok ()) →
      s.files = [(Path.join dir name, host.blob offer.ticket.hash)] →
      s.progress.getLast? = some offer.filesize → Saved host offer wait s
  | nothing : s.returned ≠ some (.ok ()) → s.files = [] → Saved host offer wait s

theorem saved_session (host : Host) (offer : Offer) (wait : DecisionWait) (room : Option Nat)
    (watched : Bool) : Saved host offer wait (session host offer wait room watched) := by
  have hsend : ∀ (s : Receiving) send, Saved host offer wait s →
      Saved host offer wait { s with send } := by
    rintro s send (⟨dir, name, hdir, hname, hret, hfiles, hlast⟩ | ⟨hret, hfiles⟩)
    · exact .file dir name hdir hname hret hfiles hlast
    · exact .nothing hret hfiles
  have hstart : Saved host offer wait { send := { room }, watched } := .nothing nofun rfl
  unfold session respond
  split
  · rename_i dir hwait
    rw [acceptDecision, EStateM.run_bind]
    cases hwrite : (onSend (SendStream.writeU8 DecisionStatus.accepted.toU8)).run
        { send := { room }, watched } with
    | error e t => exact (keeps_onSend hsend _).of_error hstart hwrite
    | ok u t =>
      obtain ⟨send, -, rfl⟩ := onSend_ok hwrite
      dsimp only
      rw [EStateM.run_bind, attempt_run]
      cases hdownload : (download host dir offer).run { send, watched } with
      | ok u t =>
        obtain ⟨name, hname, -, hfiles, earlier, hprogress⟩ := download_ok hdownload
        have hsaved : Saved host offer wait { t with returned := some (.ok ()) } :=
          .file dir name hwait hname rfl (by simpa using hfiles) (by simp [hprogress])
        exact ((keeps_onSend hsend _).bind (fun _ => keeps_onSend hsend _)) _ hsaved
      | error e t =>
        have hfiles : t.files = [] :=
          keepsOnError_download [] _ rfl e t hdownload
        have hsaved : Saved host offer wait { t with returned := some (.error e) } :=
          .nothing (fun h => by cases h) hfiles
        exact ((keeps_onSend hsend _).bind (fun _ =>
          (keeps_attempt (keeps_onSend hsend _)).bind (fun _ => .throw _))) _ hsaved
  · exact (((keeps_attempt (keeps_onSend hsend _))).bind (fun _ =>
      (keeps_attempt (keeps_onSend hsend _)).bind (fun _ => .throw _))) _ hstart

/-- What the sender makes of the first `cut` bytes of a session's answer, against how the
session ended. -/
theorem outcome_session {host : Host} {wait : DecisionWait} {s : Receiving}
    (hend : SessionEnd host offer wait s) (cut : Nat) (fin : Bool) :
    (outcome (verdict (s.send.sent.take cut) fin) = .ok .completed ∧ s.returned = some (.ok ())) ∨
    (outcome (verdict (s.send.sent.take cut) fin) = .ok .declined ∧ s.returned = none ∧
      ∀ dir, wait.decisionUi ≠ some (.accept dir)) ∨
    (∃ e, outcome (verdict (s.send.sent.take cut) fin) = .error e) ∧
      (s.send.lost = false → s.send.sent.length ≤ cut →
        (∃ dir, wait.decisionUi = some (.accept dir)) ∧ ∃ e, s.returned = some (.error e)) := by
  cases hend with
  | declined hno hret hsent =>
    rcases hsent with hsent | ⟨hlost, hsent⟩
    · rw [hsent]
      cases cut with
      | zero => exact .inr (.inr ⟨⟨_, rfl⟩, fun _ hlen => absurd hlen (by simp)⟩)
      | succ k =>
        rw [List.take_of_length_le (by simp)]
        exact .inr (.inl ⟨rfl, hret, hno⟩)
    · rw [hsent, List.take_nil]
      exact .inr (.inr ⟨⟨_, rfl⟩, fun h => by simp [hlost] at h⟩)
  | unanswered dir hdir hret hlost hsent =>
    rw [hsent, List.take_nil]
    exact .inr (.inr ⟨⟨_, rfl⟩, fun h => by simp [hlost] at h⟩)
  | answered dir r hdir hret hsent hfiles =>
    by_cases hcut : cut < s.send.sent.length
    · obtain ⟨e, t, hv, -⟩ := verdict_cut s.reported (.inl rfl) cut fin
      have hshort : outcome (verdict (s.send.sent.take cut) fin) = .error e := by
        rw [hsent, take_answer _ _ (hsent ▸ hcut), hv]
        rfl
      exact .inr (.inr ⟨⟨e, hshort⟩, fun _ hlen => absurd hcut (by omega)⟩)
    · rw [List.take_of_length_le (by omega), hsent]
      obtain ⟨-, ⟨rfl, hv⟩ | ⟨e, rfl, e', hv⟩⟩ := verdict_whole s.reported r fin
      · exact .inl ⟨hv, hret⟩
      · exact .inr (.inr ⟨⟨e', hv⟩, fun _ _ => ⟨⟨dir, hdir⟩, e, hret⟩⟩)
  | broken part hlost hpart hsent =>
    obtain ⟨e, t, hv, -⟩ := verdict_cut s.reported hpart cut fin
    rw [hsent, hv]
    exact .inr (.inr ⟨⟨e, rfl⟩, fun h => by simp [hlost] at h⟩)

/-! ## The transfer -/

/-- Where a transfer gets past the preparation and the connection, and what it is then. -/
theorem transfer_cases (codec : TicketCodec) (source : Source) (recipient : Recipient)
    (link : Link) (filename : String) :
    (∃ e, transfer codec source recipient link filename = (.error e, none)) ∧
      (∀ offer, prepareOffer source filename = .ok offer → link.connect ≠ .ok ()) ∨
    ∃ offer, prepareOffer source filename = .ok offer ∧
      (transfer codec source recipient link filename).2 = receiverSide codec source.endpoint
        recipient link (link.offerArrived
          (final ((offer.writeTo codec).run { room := link.offerRoom }))) ∧
      (∀ e send, (offer.writeTo codec).run { room := link.offerRoom } = .error e send →
        (transfer codec source recipient link filename).1 = .error e) ∧
      ∀ send, (offer.writeTo codec).run { room := link.offerRoom } = .ok () send →
        (transfer codec source recipient link filename).1 =
          if link.late then .error "receiver did not respond within 60 seconds"
          else outcome (verdict (link.answerArrived
            (((transfer codec source recipient link filename).2.map
              (fun (_, receiving) => receiving.send.sent)).getD [])) link.answerFin) := by
  unfold transfer
  cases hprepare : prepareOffer source filename with
  | error e => exact .inl ⟨⟨e, rfl⟩, nofun⟩
  | ok offer =>
    cases hconnect : link.connect with
    | error e => exact .inl ⟨⟨e, rfl⟩, nofun⟩
    | ok u =>
      refine .inr ⟨offer, rfl, ?_⟩
      dsimp only
      cases hwrite : (offer.writeTo codec).run { room := link.offerRoom } with
      | error e send => exact ⟨rfl, fun _ _ h => by cases h; rfl, nofun⟩
      | ok u send => exact ⟨rfl, nofun, fun _ _ => rfl⟩

/-- What a transfer means: `result` is what `run_sender` returned, `shown` the offer that
was shown to the receiving user and the session it led to.
* `faithful`: the offer shown is the one made of the file.
* `saved`: no file is written, or the one the offer was made of, with its content as
  hashed, its name, and in a directory chosen for it.
* `completed`, `declined`: what is told to the sending user happened.
* `whole`: unless the answer is cut or late, what happened is told to the sending user.
* `refused`: on a connection that holds, the offer is shown unless it is too long. -/
structure TransferSound (codec : TicketCodec) (source : Source) (recipient : Recipient)
    (link : Link) (filename : String) (result : Except String SendOutcome)
    (shown : Option (Offer × Receiving)) : Prop where
  faithful : ∀ offer receiving, shown = some (offer, receiving) →
    prepareOffer source filename = .ok offer
  saved : ∀ offer receiving, shown = some (offer, receiving) → receiving.files = [] ∨
    ∃ dir path name, (recipient.decide offer).decisionUi = some (.accept dir) ∧
      Path.absolute source.currentDir filename = .ok path ∧ Path.fileName path = some name ∧
      receiving.files = [(Path.join dir name, source.content path)] ∧
      receiving.progress.getLast? = some offer.filesize
  completed : result = .ok .completed → ∃ offer receiving, shown = some (offer, receiving) ∧
    receiving.files ≠ []
  declined : result = .ok .declined → ∃ offer receiving, shown = some (offer, receiving) ∧
    receiving.files = [] ∧ ∀ dir, (recipient.decide offer).decisionUi ≠ some (.accept dir)
  whole : link.answerCut = none → link.late = false →
    ∀ offer receiving, shown = some (offer, receiving) → receiving.send.lost = false →
      (result = .ok .completed ↔ receiving.files ≠ []) ∧
      (result = .ok .declined ↔
        ∀ dir, (recipient.decide offer).decisionUi ≠ some (.accept dir))
  refused : link.connect = .ok () → link.offerRoom = none → link.offerCut = none →
    ∀ offer, prepareOffer source filename = .ok offer →
      (shown.isSome = true ↔ (utf8Bytes offer.filename).length ≤ 255 ∧
        (utf8Bytes (codec.print offer.ticket)).length ≤ 4096)

/-- What a session saved is the file that was offered. -/
theorem saved_source {receiving : Receiving}
    (hblob : ∀ path hash format, source.addPath path = .ok (hash, format) →
      recipient.host.blob hash = source.content path)
    (hdir : ∀ dir, source.currentDir = .ok dir → Path.IsAbsolute dir)
    (hprepare : prepareOffer source filename = .ok offer)
    (hsaved : Saved recipient.host offer (recipient.decide offer) receiving) :
    receiving.files = [] ∨
    ∃ dir path name, (recipient.decide offer).decisionUi = some (.accept dir) ∧
      Path.absolute source.currentDir filename = .ok path ∧ Path.fileName path = some name ∧
      receiving.files = [(Path.join dir name, source.content path)] ∧
      receiving.progress.getLast? = some offer.filesize := by
  cases hsaved with
  | nothing _ hfiles => exact .inl hfiles
  | file dir name hdecision hname _ hfiles hlast =>
    obtain ⟨path, len, format, hoffer, hpath, -, hadd, -, -⟩ := prepareOffer_ok hprepare
    have hagain := Path.fileName_eq_self_iff.mpr (Path.isComponent_of_fileName hoffer)
    have hsame : name = offer.filename := Option.some.inj (hname.symm.trans hagain)
    subst hsame
    refine .inr ⟨dir, path, offer.filename, hdecision, hpath, ?_, ?_, hlast⟩
    · exact Path.fileName_absolute hdir hpath hoffer
    · rw [hfiles, hblob path _ format hadd]

/-- A session saved something exactly when `download` returned well. -/
theorem Saved.files_ne_iff {host : Host} {wait : DecisionWait} {s : Receiving}
    (h : Saved host offer wait s) : s.files ≠ [] ↔ s.returned = some (.ok ()) := by
  cases h with
  | file dir name _ _ hret hfiles _ => exact ⟨fun _ => hret, fun _ => by simp [hfiles]⟩
  | nothing hret hfiles => exact ⟨fun h => absurd hfiles h, fun h => absurd h hret⟩

theorem Saved.accepted {host : Host} {wait : DecisionWait} {s : Receiving}
    (h : Saved host offer wait s) (hret : s.returned = some (.ok ())) :
    ∃ dir, wait.decisionUi = some (.accept dir) := by
  cases h with
  | file dir name hdecision _ _ _ _ => exact ⟨dir, hdecision⟩
  | nothing hnot _ => exact absurd hret hnot

/-- What is known of an offer that was shown: it is the one prepared, and what the sender
is told of the session. -/
theorem transfer_shown {receiving : Receiving}
    (hparse : ∀ offer, prepareOffer source filename = .ok offer →
      codec.parse (codec.print offer.ticket) = some offer.ticket)
    (h : (transfer codec source recipient link filename).2 = some (offer, receiving)) :
    prepareOffer source filename = .ok offer ∧
      Saved recipient.host offer (recipient.decide offer) receiving ∧
      ((transfer codec source recipient link filename).1 = .ok .completed ∧
          receiving.returned = some (.ok ()) ∨
        (transfer codec source recipient link filename).1 = .ok .declined ∧
          receiving.returned = none ∧
          (∀ dir, (recipient.decide offer).decisionUi ≠ some (.accept dir)) ∨
        (∃ e, (transfer codec source recipient link filename).1 = .error e) ∧
          (link.answerCut = none → link.late = false → receiving.send.lost = false →
            (∃ dir, (recipient.decide offer).decisionUi = some (.accept dir)) ∧
              ∃ e, receiving.returned = some (.error e))) := by
  obtain ⟨⟨e, hnone⟩, -⟩ | ⟨prepared, hprepare, hshown, -, hresult⟩ :=
    transfer_cases codec source recipient link filename
  · rw [hnone] at h
    cases h
  obtain ⟨rfl, ⟨send, hwrite⟩, hsession⟩ :=
      receiverSide_some (hparse prepared hprepare) (hshown ▸ h)
  replace hresult := hresult send hwrite
  rw [h] at hresult
  simp only [Option.map_some, Option.getD_some] at hresult
  have hend : SessionEnd recipient.host offer (recipient.decide offer) receiving :=
    hsession ▸ session_end ..
  refine ⟨hprepare, hsession ▸ saved_session .., ?_⟩
  cases hlate : link.late with
  | true =>
    rw [hlate] at hresult
    exact .inr (.inr ⟨⟨_, hresult⟩, fun _ h => by cases h⟩)
  | false =>
    rw [hlate, if_neg (by decide), link.answerArrived_eq_take] at hresult
    rw [hresult]
    obtain h | h | ⟨h, hwhole⟩ := outcome_session hend
      (link.answerCut.getD receiving.send.sent.length) link.answerFin
    · exact .inl h
    · exact .inr (.inl h)
    · refine .inr (.inr ⟨h, fun hcut _ hlost => hwhole hlost ?_⟩)
      rw [hcut]
      exact Nat.le_refl _

/-- Without an offer that is shown, `run_sender` fails. -/
theorem transfer_unshown (h : (transfer codec source recipient link filename).2 = none) :
    ∃ e, (transfer codec source recipient link filename).1 = .error e := by
  obtain ⟨⟨e, hnone⟩, -⟩ | ⟨offer, -, -, hfailed, hresult⟩ :=
    transfer_cases codec source recipient link filename
  · exact ⟨e, by rw [hnone]⟩
  cases hwrite : (offer.writeTo codec).run { room := link.offerRoom } with
  | error e send => exact ⟨e, hfailed e send hwrite⟩
  | ok u send =>
    rw [hresult send hwrite, h, link.answerArrived_eq_take]
    split
    · exact ⟨_, rfl⟩
    · show ∃ e, outcome (verdict (List.take _ []) link.answerFin) = .error e
      rw [List.take_nil]
      exact ⟨_, rfl⟩

/-- An outcome is that of a session. -/
theorem transfer_session {result : SendOutcome}
    (h : (transfer codec source recipient link filename).1 = .ok result) :
    ∃ offer receiving,
      (transfer codec source recipient link filename).2 = some (offer, receiving) := by
  cases hshown : (transfer codec source recipient link filename).2 with
  | none =>
    obtain ⟨e, he⟩ := transfer_unshown hshown
    rw [h] at he
    cases he
  | some pair => exact ⟨pair.1, pair.2, rfl⟩

/-- `Completed` is told of a session that has saved something. -/
theorem transfer_completed
    (hparse : ∀ offer, prepareOffer source filename = .ok offer →
      codec.parse (codec.print offer.ticket) = some offer.ticket)
    (h : (transfer codec source recipient link filename).1 = .ok .completed) :
    ∃ offer receiving,
      (transfer codec source recipient link filename).2 = some (offer, receiving) ∧
      receiving.files ≠ [] := by
  obtain ⟨offer, receiving, hshown⟩ := transfer_session h
  obtain ⟨-, hsaved, hverdict⟩ := transfer_shown hparse hshown
  refine ⟨offer, receiving, hshown, hsaved.files_ne_iff.mpr ?_⟩
  obtain ⟨-, hret⟩ | ⟨hdeclined, -⟩ | ⟨⟨e, herror⟩, -⟩ := hverdict
  · exact hret
  · simp [h] at hdeclined
  · simp [h] at herror

/-- `Declined` is told of a session that was not accepted. -/
theorem transfer_declined
    (hparse : ∀ offer, prepareOffer source filename = .ok offer →
      codec.parse (codec.print offer.ticket) = some offer.ticket)
    (h : (transfer codec source recipient link filename).1 = .ok .declined) :
    ∃ offer receiving,
      (transfer codec source recipient link filename).2 = some (offer, receiving) ∧
      receiving.files = [] ∧ ∀ dir, (recipient.decide offer).decisionUi ≠ some (.accept dir) := by
  obtain ⟨offer, receiving, hshown⟩ := transfer_session h
  obtain ⟨-, hsaved, hverdict⟩ := transfer_shown hparse hshown
  obtain ⟨hcompleted, -⟩ | ⟨-, hret, hno⟩ | ⟨⟨e, herror⟩, -⟩ := hverdict
  · simp [h] at hcompleted
  · refine ⟨offer, receiving, hshown, Classical.byContradiction fun hfiles => ?_, hno⟩
    have hreturned := hsaved.files_ne_iff.mp hfiles
    rw [hret] at hreturned
    cases hreturned
  · simp [h] at herror

/-- **What is sent is what is saved.**  Whatever becomes of the connection, the receiving
user is shown the offer that was made of the file or nothing, and the only file a transfer
writes is that one, under its name and in a directory chosen for it; what the sending
user is told about it is true, and nothing is left untold unless the answer is cut. -/
theorem sent_is_saved (codec : TicketCodec) (source : Source) (recipient : Recipient)
    (link : Link) (filename : String)
    (hparse : ∀ offer, prepareOffer source filename = .ok offer →
      codec.parse (codec.print offer.ticket) = some offer.ticket)
    (hblob : ∀ path hash format, source.addPath path = .ok (hash, format) →
      recipient.host.blob hash = source.content path)
    (hdir : ∀ dir, source.currentDir = .ok dir → Path.IsAbsolute dir) :
    TransferSound codec source recipient link filename
      (transfer codec source recipient link filename).1
      (transfer codec source recipient link filename).2 where
  faithful := fun _ _ hshown => (transfer_shown hparse hshown).1
  saved := fun _ _ hshown =>
    have ⟨hprepare, hsaved, _⟩ := transfer_shown hparse hshown
    saved_source hblob hdir hprepare hsaved
  completed := transfer_completed hparse
  declined := transfer_declined hparse
  whole := by
    intro hcut hlate offer receiving hshown hlost
    obtain ⟨-, hsaved, hverdict⟩ := transfer_shown hparse hshown
    rw [hsaved.files_ne_iff]
    obtain ⟨hresult, h⟩ | ⟨hresult, h, hno⟩ | ⟨⟨e, hresult⟩, hwhole⟩ := hverdict
    · obtain ⟨dir, hdecision⟩ := hsaved.accepted h
      rw [hresult, h]
      exact ⟨⟨fun _ => rfl, fun _ => rfl⟩, ⟨nofun, fun hno => absurd hdecision (hno dir)⟩⟩
    · rw [hresult, h]
      exact ⟨⟨nofun, nofun⟩, ⟨fun _ => hno, fun _ => rfl⟩⟩
    · obtain ⟨⟨dir, hdecision⟩, e', h⟩ := hwhole hcut hlate hlost
      rw [hresult, h]
      exact ⟨⟨nofun, nofun⟩, ⟨nofun, fun hno => absurd hdecision (hno dir)⟩⟩
  refused := by
    intro hconnect hroom hcut offer hprepare
    obtain ⟨-, hrefused⟩ | ⟨prepared, hprepared, hshown, -⟩ :=
      transfer_cases codec source recipient link filename
    · exact absurd hconnect (hrefused offer hprepare)
    obtain rfl : prepared = offer := Except.ok.inj (hprepared.symm.trans hprepare)
    obtain ⟨_, _, format, -, -, -, -, -, hticket⟩ := prepareOffer_ok hprepare
    have hid : prepared.ticket.addr.id = source.endpoint := by rw [hticket]
    rw [hshown, hroom, ← hid]
    exact receiverSide_isSome (hparse prepared hprepare) hcut

/-- A machine with one file, `docs/a.txt`. -/
def Source.sample : Source where
  currentDir := .ok "/home/u"
  metadata path := if path = "/home/u/docs/a.txt" then .ok ⟨true, 3⟩ else .error "no such file"
  addPath path := if path = "/home/u/docs/a.txt" then .ok (⟨7⟩, .raw) else .error "no such file"
  content _ := [1, 2, 3]
  endpoint := ⟨1⟩

/-- A user who saves everything in `/tmp`. -/
def Recipient.sample : Recipient where
  host := obligingHost [1, 2, 3]
  decide _ := .received (.accept "/tmp")

/-- A file sent from a working directory arrives in another. -/
theorem sent_is_saved_sample :
    (transfer Offer.sampleCodec .sample .sample {} "./docs/a.txt").1 = .ok .completed ∧
    (transfer Offer.sampleCodec .sample .sample {} "./docs/a.txt").2.map (fun (_, s) => s.files) =
      some [("/tmp/a.txt", [1, 2, 3])] := by
  have hprepare : prepareOffer .sample "./docs/a.txt" = .ok Offer.sampleOffer := by rfl
  have hfiles : (transfer Offer.sampleCodec .sample .sample {} "./docs/a.txt").2.map
      (fun (_, s) => (s.files, s.send.lost)) = some ([("/tmp/a.txt", [1, 2, 3])], false) := by
    decide +kernel
  have hsound := sent_is_saved Offer.sampleCodec .sample .sample {} "./docs/a.txt"
    (fun offer h => by cases hprepare.symm.trans h; decide)
    (fun path hash format _ => rfl)
    (fun dir h => by cases h; decide)
  generalize transfer Offer.sampleCodec .sample .sample {} "./docs/a.txt" = t at hfiles hsound ⊢
  obtain ⟨result, _ | ⟨offer, receiving⟩⟩ := t
  · cases hfiles
  · obtain ⟨hfiles, hlost⟩ := Prod.mk.inj (Option.some.inj hfiles)
    refine ⟨(hsound.whole rfl rfl offer receiving rfl hlost).1.mpr ?_, congrArg some hfiles⟩
    rw [show receiving.files = _ from hfiles]
    simp

end IrohShare
