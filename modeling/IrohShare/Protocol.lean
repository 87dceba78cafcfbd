import IrohShare.ByteStream

/-!
# The transfer protocol

What the two peers write on the one bidirectional stream of a transfer.  The
sender writes its `Offer` and ends its side; the receiver answers with a
`DecisionStatus` byte and, if it accepted, with `DownloadStatus` frames.

The wire form of a ticket belongs to `iroh_blobs`; `TicketCodec` stands for it.
-/
namespace IrohShare
open ByteStream

/-! ## Identities and tickets -/

/-- The public key of an endpoint; the program only compares them. -/
structure EndpointId where
  key : Nat
  deriving DecidableEq, Repr

/-- The hash of a blob. -/
structure Hash where
  digest : Nat
  deriving DecidableEq, Repr

inductive BlobFormat
  | raw
  | hashSeq
  deriving DecidableEq, Repr

/-- An endpoint and the transport addresses it may be reached at. -/
structure EndpointAddr where
  id : EndpointId
  addrs : List String
  deriving DecidableEq, Repr

/-- A ticket: who provides which blob. -/
structure BlobTicket where
  addr : EndpointAddr
  hash : Hash
  format : BlobFormat
  deriving DecidableEq, Repr

/-- The string form of tickets, `Display` and `FromStr` of `BlobTicket`. -/
structure TicketCodec where
  print : BlobTicket → String
  parse : String → Option BlobTicket

/-! ## Offers -/

structure Offer where
  filename : String
  filesize : UInt64
  ticket : BlobTicket
  deriving DecidableEq, Repr

namespace Offer

/-- `Offer::read_from`: a length-prefixed name, the size, and the ticket up to the
end of the stream. -/
def readFrom (codec : TicketCodec) : EStateM String RecvStream Offer := do
  let filenameLen := (← RecvStream.readU16).toNat
  ensure (decide (filenameLen ≤ 255)) "filename too long"
  let filename ← RecvStream.readExact filenameLen
  let filename ← orThrow "filename is not valid utf8" (utf8Decode filename)
  let filesize ← RecvStream.readU64
  let ticket ← RecvStream.readToEnd 4096
  let ticket ← orThrow "ticket is not valid utf8" (utf8Decode ticket)
  let ticket ← orThrow "invalid blob ticket" (codec.parse ticket)
  return { filename, filesize, ticket }

/-- `u16::try_from` of a length. -/
def lenU16 (n : Nat) : Option UInt16 := if n < UInt16.size then some (UInt16.ofNat n) else none

/-- `Offer::write_to`. -/
def writeTo (codec : TicketCodec) (offer : Offer) : EStateM String SendStream Unit := do
  let filename := utf8Bytes offer.filename
  let ticket := codec.print offer.ticket
  SendStream.writeU16
    (← orThrow "number too large to fit in target type" (lenU16 filename.length))
  SendStream.writeAll filename
  SendStream.writeU64 offer.filesize
  SendStream.writeAll (utf8Bytes ticket)
  SendStream.finish

/-- The bytes of an offer on the wire. -/
def encoded (codec : TicketCodec) (offer : Offer) : List UInt8 :=
  toBytesBE 2 (utf8Bytes offer.filename).length ++ utf8Bytes offer.filename ++
    toBytesBE 8 offer.filesize.toNat ++ utf8Bytes (codec.print offer.ticket)

variable {codec : TicketCodec} {offer : Offer}

theorem lenU16_eq_some {n : Nat} {len : UInt16} (h : lenU16 n = some len) : len.toNat = n := by
  unfold lenU16 at h
  split at h
  · cases h
    exact UInt16.toNat_ofNat_of_lt ‹_›
  · cases h

/-- A successful `write_to` has put exactly the encoding on the stream and ended it;
the name's length fits in sixteen bits. -/
theorem writeTo_ok {s s' : SendStream} (h : (offer.writeTo codec).run s = .ok () s') :
    s'.sent = s.sent ++ offer.encoded codec ∧ s'.finished = true ∧
      (utf8Bytes offer.filename).length < UInt16.size := by
  obtain ⟨len, t, horThrow, hrest⟩ := bind_ok h
  obtain ⟨hlen, ht⟩ := orThrow_ok horThrow
  obtain ⟨⟨⟩, t₁, h1, hrest⟩ := bind_ok hrest
  obtain ⟨⟨⟩, t₂, h2, hrest⟩ := bind_ok hrest
  obtain ⟨⟨⟩, t₃, h3, hrest⟩ := bind_ok hrest
  obtain ⟨⟨⟩, t₄, h4, h5⟩ := bind_ok hrest
  have hfits : (utf8Bytes offer.filename).length < UInt16.size := by
    rw [← lenU16_eq_some hlen]
    exact len.toNat_lt
  obtain ⟨hsent, hfinished, -⟩ := SendStream.finish_ok h5
  refine ⟨?_, hfinished, hfits⟩
  rw [hsent, (SendStream.writeAll_ok h4).1, (SendStream.writeAll_ok h3).1,
    (SendStream.writeAll_ok h2).1, (SendStream.writeAll_ok h1).1, lenU16_eq_some hlen, ht]
  simp [encoded]

/-- On a stream that takes everything, `write_to` fails only for a name whose length
does not fit in sixteen bits. -/
theorem writeTo_of_open (hlen : (utf8Bytes offer.filename).length < UInt16.size) :
    (offer.writeTo codec).run {} = .ok () { sent := offer.encoded codec, finished := true } := by
  have hofNat : (UInt16.ofNat (utf8Bytes offer.filename).length).toNat
      = (utf8Bytes offer.filename).length := UInt16.toNat_ofNat_of_lt hlen
  have hlen16 : lenU16 (utf8Bytes offer.filename).length
      = some (UInt16.ofNat (utf8Bytes offer.filename).length) := if_pos hlen
  simp only [writeTo, hlen16, EStateM.run_bind, orThrow_some, SendStream.writeU16,
    SendStream.writeU64, SendStream.writeAll_open, hofNat, encoded]
  rfl

/-- Reading the two length bytes at the front of an encoded offer. -/
theorem readU16_length {n : Nat} (h : n < UInt16.size) (rest : List UInt8) (fin : Bool) :
    RecvStream.readU16.run ⟨toBytesBE 2 n ++ rest, fin⟩ = .ok (UInt16.ofNat n) ⟨rest, fin⟩ := by
  have hn : (UInt16.ofNat n).toNat = n := UInt16.toNat_ofNat_of_lt h
  have hr := RecvStream.readU16_append (UInt16.ofNat n) rest fin
  rwa [hn] at hr

/-- An encoded offer whose name has at most 255 bytes, and whose ticket parses and
has at most 4096, is read back. -/
theorem readFrom_encoded (hname : (utf8Bytes offer.filename).length ≤ 255)
    (hticket : (utf8Bytes (codec.print offer.ticket)).length ≤ 4096)
    (hparse : codec.parse (codec.print offer.ticket) = some offer.ticket) :
    (readFrom codec).run ⟨offer.encoded codec, true⟩ = .ok offer ⟨[], true⟩ := by
  have hlen : (utf8Bytes offer.filename).length < UInt16.size :=
    Nat.lt_of_le_of_lt hname (by decide)
  have hofNat : (UInt16.ofNat (utf8Bytes offer.filename).length).toNat
      = (utf8Bytes offer.filename).length := UInt16.toNat_ofNat_of_lt hlen
  have hend : (RecvStream.readToEnd 4096).run ⟨utf8Bytes (codec.print offer.ticket), true⟩
      = .ok (utf8Bytes (codec.print offer.ticket)) ⟨[], true⟩ := by
    simp [EStateM.run, RecvStream.readToEnd, hticket]
  rw [encoded, List.append_assoc, List.append_assoc, readFrom, EStateM.run_bind,
    readU16_length hlen]
  simp only [hofNat, EStateM.run_bind, ensure_true (decide_eq_true hname), orThrow_some,
    RecvStream.readExact_append, RecvStream.readU64_append, utf8Decode_utf8Bytes, hend, hparse,
    EStateM.run_pure]

/-- A name of more than 255 bytes is refused as soon as its length is read. -/
theorem readFrom_of_long (hlen : (utf8Bytes offer.filename).length < UInt16.size)
    (hname : 255 < (utf8Bytes offer.filename).length) (fin : Bool) :
    outcome ((readFrom codec).run ⟨offer.encoded codec, fin⟩) = .error "filename too long" := by
  have hofNat : (UInt16.ofNat (utf8Bytes offer.filename).length).toNat
      = (utf8Bytes offer.filename).length := UInt16.toNat_ofNat_of_lt hlen
  have hfalse : decide ((utf8Bytes offer.filename).length ≤ 255) = false :=
    decide_eq_false (by omega)
  rw [encoded, List.append_assoc, List.append_assoc, readFrom, EStateM.run_bind,
    readU16_length hlen]
  simp only [hofNat, EStateM.run_bind, hfalse, ensure_false, outcome_error]

/-- **What the encoder accepts, the decoder returns, exactly for short names.**  Of
the offers `write_to` encodes, with a ticket of at most 4096 bytes, those
`read_from` gives back are the ones whose name has at most 255 bytes. -/
theorem readFrom_written_iff {s s' : SendStream} (hempty : s.sent = [])
    (hwrite : (offer.writeTo codec).run s = .ok () s')
    (hticket : (utf8Bytes (codec.print offer.ticket)).length ≤ 4096)
    (hparse : codec.parse (codec.print offer.ticket) = some offer.ticket) :
    outcome ((readFrom codec).run ⟨s'.sent, s'.finished⟩) = .ok offer ↔
      (utf8Bytes offer.filename).length ≤ 255 := by
  obtain ⟨hsent, hfin, hlen⟩ := writeTo_ok hwrite
  rw [hsent, hfin, hempty, List.nil_append]
  constructor
  · intro hok
    by_contra hlong
    rw [readFrom_of_long hlen (by omega)] at hok
    cases hok
  · intro hname
    rw [readFrom_encoded hname hticket hparse, outcome_ok]

/-- A ticket for blob `7` of endpoint `1`. -/
def sampleTicket : BlobTicket := ⟨⟨⟨1⟩, []⟩, ⟨7⟩, .raw⟩

/-- A string form that covers `sampleTicket`. -/
def sampleCodec : TicketCodec where
  print _ := "blobaaag7"
  parse s := if s = "blobaaag7" then some sampleTicket else none

/-- An offer of `a.txt`, three bytes. -/
def sampleOffer : Offer := ⟨"a.txt", 3, sampleTicket⟩

/-- An offer of a file whose name is 256 letters. -/
def longNameOffer : Offer := ⟨String.ofList (List.replicate 256 'a'), 3, sampleTicket⟩

theorem readFrom_written_iff_sample :
    outcome ((readFrom sampleCodec).run ⟨sampleOffer.encoded sampleCodec, true⟩)
      = .ok sampleOffer :=
  (readFrom_written_iff rfl (writeTo_of_open (by decide)) (by decide) (by decide)).mpr (by decide)

/-- The encoder writes an offer with a name of 256 bytes, and the decoder refuses
what it wrote. -/
theorem longNameOffer_written_and_refused :
    ∃ s', (longNameOffer.writeTo sampleCodec).run {} = .ok () s' ∧
      (utf8Bytes (sampleCodec.print longNameOffer.ticket)).length ≤ 4096 ∧
      sampleCodec.parse (sampleCodec.print longNameOffer.ticket) = some longNameOffer.ticket ∧
      outcome ((readFrom sampleCodec).run ⟨s'.sent, s'.finished⟩) =
        .error "filename too long" :=
  have hname : (utf8Bytes longNameOffer.filename).length = 256 := by decide +kernel
  have hfits : (utf8Bytes longNameOffer.filename).length < UInt16.size := hname ▸ (by decide)
  ⟨_, writeTo_of_open hfits, by decide, by decide, readFrom_of_long hfits (by omega) _⟩

end Offer

/-! ## The receiver's answer -/

inductive DecisionStatus
  | declined
  | accepted
  deriving DecidableEq, Repr

namespace DecisionStatus

/-- The discriminant, `as u8`. -/
def toU8 : DecisionStatus → UInt8
  | declined => 0
  | accepted => 1

/-- `DecisionStatus::try_from`. -/
def tryFrom {σ : Type} (value : UInt8) : EStateM String σ DecisionStatus :=
  if value = 0 then pure declined
  else if value = 1 then pure accepted
  else throw "invalid transfer status"

end DecisionStatus

/-- `transfer_decision`. -/
def transferDecision : EStateM String RecvStream DecisionStatus := do
  let byte ← context "accept byte was not received" RecvStream.readU8
  DecisionStatus.tryFrom byte

inductive DownloadStatus
  | progress (downloaded : UInt64)
  | completed
  | failed
  deriving DecidableEq, Repr

namespace DownloadStatus

/-- `DownloadStatus::read_from`. -/
def readFrom : EStateM String RecvStream DownloadStatus := do
  let value ← RecvStream.readU8
  if value = 2 then return progress (← RecvStream.readU64)
  else if value = 3 then return completed
  else if value = 4 then return failed
  else throw s!"invalid download status: {value}"

/-- `DownloadStatus::write_to`. -/
def writeTo : DownloadStatus → EStateM String SendStream Unit
  | progress downloaded => do
    SendStream.writeU8 2
    SendStream.writeU64 downloaded
  | completed => SendStream.writeU8 3
  | failed => SendStream.writeU8 4

/-- The frame of a status on the wire. -/
def frame : DownloadStatus → List UInt8
  | progress downloaded => 2 :: toBytesBE 8 downloaded.toNat
  | completed => [3]
  | failed => [4]

theorem writeTo_ok {status : DownloadStatus} {s s' : SendStream}
    (h : status.writeTo.run s = .ok () s') :
    s'.sent = s.sent ++ status.frame ∧ s'.finished = s.finished ∧
      s.lost = false ∧ s'.lost = false := by
  cases status with
  | progress downloaded =>
    obtain ⟨⟨⟩, t, h1, h2⟩ := bind_ok h
    obtain ⟨hsent1, hfin1, hlost, -⟩ := SendStream.writeAll_ok h1
    obtain ⟨hsent2, hfin2, -, hlost'⟩ := SendStream.writeAll_ok h2
    refine ⟨?_, hfin2.trans hfin1, hlost, hlost'⟩
    rw [hsent2, hsent1, List.append_assoc]
    rfl
  | completed => exact SendStream.writeAll_ok h
  | failed => exact SendStream.writeAll_ok h

/-- A frame cut short: the part of a `Progress` frame that can go out before a
write fails. -/
def Partial (bytes : List UInt8) : Prop :=
  bytes = [] ∨ ∃ payload : List UInt8, bytes = 2 :: payload ∧ payload.length < 8

/-- A failed `write_to` on an unfinished stream leaves it lost, with a part of the
frame gone out that is not a whole one. -/
theorem writeTo_error {status : DownloadStatus} {s s' : SendStream} {e : String}
    (hfin : s.finished = false) (h : status.writeTo.run s = .error e s') :
    s'.finished = false ∧ s'.lost = true ∧
      ∃ part, s'.sent = s.sent ++ part ∧ Partial part ∧ (s.lost = true → part = []) := by
  -- a single byte either goes out or does not
  have hbyte : ∀ {b : UInt8} {t : SendStream}, t.finished = false →
      (SendStream.writeU8 b).run t = .error e s' →
      s'.finished = false ∧ s'.lost = true ∧ s'.sent = t.sent := by
    intro b t ht hw
    obtain ⟨hf, hl, r, hsent, hr⟩ := SendStream.writeAll_error ht hw
    have hr0 : r = 0 := by
      rcases hr with hr | ⟨-, hr⟩
      · exact hr
      · simpa using hr
    exact ⟨hf, hl, by simpa [hr0] using hsent⟩
  cases status with
  | progress downloaded =>
    simp only [writeTo, EStateM.run_bind] at h
    cases h1 : (SendStream.writeU8 2).run s with
    | error e₁ t =>
      rw [h1] at h
      cases h
      obtain ⟨hf, hl, hsent⟩ := hbyte hfin h1
      exact ⟨hf, hl, [], by simpa using hsent, .inl rfl, fun _ => rfl⟩
    | ok _ t =>
      rw [h1] at h
      obtain ⟨hsent1, hfin1, hlost, -⟩ := SendStream.writeAll_ok h1
      obtain ⟨hf, hl, r, hsent, hr⟩ := SendStream.writeAll_error (hfin1.trans hfin) h
      rw [length_toBytesBE] at hr
      have hr8 : r < 8 := by omega
      refine ⟨hf, hl, 2 :: (toBytesBE 8 downloaded.toNat).take r, ?_, .inr ⟨_, rfl, ?_⟩, ?_⟩
      · rw [hsent, hsent1, List.append_assoc]
        rfl
      · rw [List.length_take, length_toBytesBE]
        omega
      · intro habs
        simp [hlost] at habs
  | completed =>
    obtain ⟨hf, hl, hsent⟩ := hbyte hfin h
    exact ⟨hf, hl, [], by simpa using hsent, .inl rfl, fun _ => rfl⟩
  | failed =>
    obtain ⟨hf, hl, hsent⟩ := hbyte hfin h
    exact ⟨hf, hl, [], by simpa using hsent, .inl rfl, fun _ => rfl⟩

/-- Reading a status takes at least its first byte. -/
theorem readFrom_length {r r' : RecvStream} {status : DownloadStatus}
    (h : readFrom.run r = .ok status r') : r'.bytes.length < r.bytes.length := by
  obtain ⟨value, t, h1, h2⟩ := bind_ok h
  have hlen : r.bytes.length = t.bytes.length + 1 := by
    rw [RecvStream.readU8_ok h1, List.length_cons]
  -- after the first byte only a `Progress` frame reads on
  have hrest : r'.bytes.length ≤ t.bytes.length := by
    split at h2
    · obtain ⟨n, u, h3, h4⟩ := bind_ok h2
      cases h4
      exact RecvStream.readU64_length h3
    · split at h2
      · cases h2
        exact Nat.le_refl _
      · split at h2
        · cases h2
          exact Nat.le_refl _
        · cases h2
  omega

/-- After the tag of a `Progress` frame its value is read. -/
theorem readFrom_two (bytes : List UInt8) (fin : Bool) :
    readFrom.run ⟨2 :: bytes, fin⟩ =
      (do return progress (← RecvStream.readU64)).run ⟨bytes, fin⟩ := by
  rw [readFrom, EStateM.run_bind, RecvStream.readU8_cons]
  rfl

/-- A whole frame at the front of the stream is read as its status. -/
theorem readFrom_frame (status : DownloadStatus) (rest : List UInt8) (fin : Bool) :
    readFrom.run ⟨status.frame ++ rest, fin⟩ = .ok status ⟨rest, fin⟩ := by
  cases status with
  | progress downloaded =>
    rw [frame, List.cons_append, readFrom_two, EStateM.run_bind, RecvStream.readU64_append]
    rfl
  | completed => rfl
  | failed => rfl

/-- A frame cut short is not read as anything. -/
theorem readFrom_partial {part : List UInt8} (h : Partial part) (fin : Bool) :
    ∃ e r, readFrom.run ⟨part, fin⟩ = .error e r := by
  rcases h with rfl | ⟨payload, rfl, hlen⟩
  · exact ⟨_, _, rfl⟩
  · have hshort := RecvStream.readU64_short (s := ⟨payload, fin⟩) hlen
    exact ⟨_, ⟨[], fin⟩, by rw [readFrom_two, EStateM.run_bind, hshort]⟩

/-- The frames of a list of progress values. -/
def progressFrames (values : List UInt64) : List UInt8 :=
  values.flatMap (fun v => (progress v).frame)

@[simp] theorem progressFrames_nil : progressFrames [] = [] := rfl

@[simp] theorem progressFrames_cons (v : UInt64) (values : List UInt64) :
    progressFrames (v :: values) = (progress v).frame ++ progressFrames values := rfl

@[simp] theorem progressFrames_concat (values : List UInt64) (v : UInt64) :
    progressFrames (values ++ [v]) = progressFrames values ++ (progress v).frame := by
  simp [progressFrames]

theorem Partial.take {part : List UInt8} (h : Partial part) (k : Nat) : Partial (part.take k) := by
  rcases h with rfl | ⟨payload, rfl, hlen⟩
  · exact .inl (List.take_nil)
  · cases k with
    | zero => exact .inl rfl
    | succ k =>
      refine .inr ⟨payload.take k, rfl, ?_⟩
      rw [List.length_take]
      omega

theorem partial_take_frame {v : UInt64} {k : Nat} (hk : k < 9) :
    Partial ((progress v).frame.take k) := by
  cases k with
  | zero => exact .inl rfl
  | succ k =>
    refine .inr ⟨(toBytesBE 8 v.toNat).take k, rfl, ?_⟩
    rw [List.length_take, length_toBytesBE]
    omega

/-- **Framing survives a cut.**  Cutting progress frames, the last of which may be
cut short already, leaves whole frames and then at most a frame cut short. -/
theorem take_progressFrames (values : List UInt64) {part : List UInt8} (hpart : Partial part)
    (k : Nat) :
    ∃ whole part', (progressFrames values ++ part).take k = progressFrames whole ++ part' ∧
      whole <+: values ∧ Partial part' := by
  induction values generalizing k with
  | nil => exact ⟨[], part.take k, rfl, List.prefix_refl _, hpart.take k⟩
  | cons v values ih =>
    have hframe : (progress v).frame.length = 9 := by simp [frame]
    rcases Nat.lt_or_ge k 9 with hk | hk
    · refine ⟨[], (progress v).frame.take k, ?_, List.nil_prefix, partial_take_frame hk⟩
      rw [progressFrames_cons, List.append_assoc,
        List.take_append_of_le_length (by omega)]
      rfl
    · obtain ⟨whole, part', htake, hpre, hpart'⟩ := ih (k - 9)
      refine ⟨v :: whole, part', ?_, (List.prefix_cons_inj v).mpr hpre, hpart'⟩
      rw [progressFrames_cons, progressFrames_cons, List.append_assoc, List.append_assoc,
        ← htake, List.take_append, List.take_of_length_le (by omega), hframe]

end DownloadStatus
end IrohShare
