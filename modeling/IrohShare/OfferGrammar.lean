import Mathlib.Logic.Equiv.List
import IrohShare.Protocol

/-!
# The offer grammar

An offer on the wire is a length, a name of that length, a size, and a ticket up to the
end of the stream.  `Layout` is the form of these bytes; `read_from` accepts those whose
fields are short enough, in UTF-8, and hold a ticket.
-/
namespace IrohShare
open ByteStream

namespace Offer

/-- The bytes of a name, a size and what follows them. -/
def layout (filename : String) (filesize : UInt64) (ticket : List UInt8) : List UInt8 :=
  toBytesBE 2 (utf8Bytes filename).length ++ utf8Bytes filename ++
    toBytesBE 8 filesize.toNat ++ ticket

theorem encoded_eq_layout (codec : TicketCodec) (offer : Offer) :
    offer.encoded codec =
      layout offer.filename offer.filesize (utf8Bytes (codec.print offer.ticket)) := rfl

theorem layout_append (filename : String) (filesize : UInt64) (ticket rest : List UInt8) :
    layout filename filesize ticket ++ rest = layout filename filesize (ticket ++ rest) :=
  List.append_assoc ..

theorem toBytesBE_inj {width n m : Nat} (hn : n < 256 ^ width) (hm : m < 256 ^ width)
    (h : toBytesBE width n = toBytesBE width m) : n = m := by
  rw [← ofBytesBE_toBytesBE hn, h, ofBytesBE_toBytesBE hm]

/-- **The fields can be told apart.**  Names whose lengths fit in sixteen bits. -/
theorem layout_inj {f f' : String} {n n' : UInt64} {s s' : List UInt8}
    (hf : (utf8Bytes f).length < UInt16.size) (hf' : (utf8Bytes f').length < UInt16.size)
    (h : layout f n s = layout f' n' s') : f = f' ∧ n = n' ∧ s = s' := by
  simp only [layout, List.append_assoc] at h
  obtain ⟨hlen, h⟩ := List.append_inj h (by rw [length_toBytesBE, length_toBytesBE])
  obtain ⟨hname, h⟩ := List.append_inj h (@toBytesBE_inj 2 _ _ hf hf' hlen)
  obtain ⟨hsize, hticket⟩ := List.append_inj h (by rw [length_toBytesBE, length_toBytesBE])
  exact ⟨utf8Bytes_injective hname,
    UInt64.toNat_inj.mp (@toBytesBE_inj 8 _ _ n.toNat_lt n'.toNat_lt hsize), hticket⟩

/-- The bytes that say this offer. -/
def Grammar (codec : TicketCodec) (bytes : List UInt8) (offer : Offer) : Prop :=
  ∃ ticket : String, bytes = layout offer.filename offer.filesize (utf8Bytes ticket) ∧
    (utf8Bytes offer.filename).length ≤ 255 ∧ (utf8Bytes ticket).length ≤ 4096 ∧
    codec.parse ticket = some offer.ticket

variable {codec : TicketCodec} {offer : Offer}

/-- What `read_from` returns was on the stream, and the stream was ended. -/
theorem readFrom_ok {r r' : RecvStream} (h : (readFrom codec).run r = .ok offer r') :
    Grammar codec r.bytes offer ∧ r.finished = true := by
  obtain ⟨len, t₁, hlen, h⟩ := bind_ok h
  obtain ⟨⟨⟩, t₂, hensure, h⟩ := bind_ok h
  obtain ⟨name, t₃, hname, h⟩ := bind_ok h
  obtain ⟨filename, t₄, hutf8, h⟩ := bind_ok h
  obtain ⟨filesize, t₅, hsize, h⟩ := bind_ok h
  obtain ⟨bytes, t₆, hend, h⟩ := bind_ok h
  obtain ⟨text, t₇, htext, h⟩ := bind_ok h
  obtain ⟨ticket, t₈, hparse, h⟩ := bind_ok h
  cases h
  obtain ⟨hbytes₁, hfin₁⟩ := RecvStream.readU16_ok hlen
  have hshort : len.toNat ≤ 255 ∧ t₂ = t₁ := by
    unfold ensure at hensure
    split at hensure
    · cases hensure
      exact ⟨of_decide_eq_true ‹_›, rfl⟩
    · cases hensure
  obtain ⟨hshort, rfl⟩ := hshort
  obtain ⟨hbytes₂, hnamelen, hfin₂⟩ := RecvStream.readExact_ok hname
  obtain ⟨hdecode, rfl⟩ := orThrow_ok hutf8
  obtain ⟨hbytes₃, hfin₃⟩ := RecvStream.readU64_ok hsize
  obtain ⟨hbytes₄, hlimit, hfin₄⟩ := RecvStream.readToEnd_ok hend
  obtain ⟨htextdecode, rfl⟩ := orThrow_ok htext
  obtain ⟨hticket, rfl⟩ := orThrow_ok hparse
  have hnamebytes := utf8Bytes_of_utf8Decode hdecode
  have htextbytes := utf8Bytes_of_utf8Decode htextdecode
  refine ⟨⟨text, ?_, ?_, ?_, hticket⟩, ?_⟩
  · simp only [layout, hnamebytes, htextbytes, hnamelen]
    rw [hbytes₁, hbytes₂, hbytes₃, hbytes₄, List.append_assoc, List.append_assoc]
  · rw [hnamebytes, hnamelen]
    exact hshort
  · rw [htextbytes]
    exact hlimit
  · rw [← hfin₁, ← hfin₂, ← hfin₃, hfin₄]

/-- What says an offer is read as that offer. -/
theorem readFrom_of_grammar {bytes : List UInt8} (h : Grammar codec bytes offer) :
    (readFrom codec).run ⟨bytes, true⟩ = .ok offer ⟨[], true⟩ := by
  obtain ⟨ticket, rfl, hname, hlimit, hparse⟩ := h
  -- a codec that prints this ticket as this text
  let printing : TicketCodec := ⟨fun _ => ticket, codec.parse⟩
  have hread : (readFrom printing).run ⟨offer.encoded printing, true⟩ = .ok offer ⟨[], true⟩ :=
    readFrom_encoded hname hlimit hparse
  exact hread

theorem readFrom_iff_grammar (bytes : List UInt8) :
    outcome ((readFrom codec).run ⟨bytes, true⟩) = .ok offer ↔ Grammar codec bytes offer := by
  constructor
  · intro h
    cases hrun : (readFrom codec).run ⟨bytes, true⟩ with
    | ok o r =>
      rw [hrun] at h
      cases h
      exact (readFrom_ok hrun).1
    | error e r =>
      rw [hrun] at h
      cases h
  · intro h
    rw [readFrom_of_grammar h, outcome_ok]

/-- What `read_from` accepts, `write_to` encodes again, to a stream that is read back. -/
theorem writeTo_of_accepted (hparse : ∀ t, codec.parse (codec.print t) = some t)
    {bytes : List UInt8} (hread : outcome ((readFrom codec).run ⟨bytes, true⟩) = .ok offer)
    (hticket : (utf8Bytes (codec.print offer.ticket)).length ≤ 4096) :
    ∃ s, (offer.writeTo codec).run {} = .ok () s ∧
      outcome ((readFrom codec).run ⟨s.sent, s.finished⟩) = .ok offer := by
  obtain ⟨-, -, hname, -, -⟩ := (readFrom_iff_grammar bytes).mp hread
  have hfits : (utf8Bytes offer.filename).length < UInt16.size :=
    Nat.lt_of_le_of_lt hname (by decide)
  refine ⟨_, writeTo_of_open hfits, ?_⟩
  rw [readFrom_encoded hname hticket (hparse _), outcome_ok]

/-- Two offers that `write_to` puts on a stream as the same bytes are the same. -/
theorem writeTo_inj (hparse : ∀ t, codec.parse (codec.print t) = some t) {o o' : Offer}
    {s t t' : SendStream} (h : (o.writeTo codec).run s = .ok () t)
    (h' : (o'.writeTo codec).run s = .ok () t') (hsent : t.sent = t'.sent) : o = o' := by
  obtain ⟨hbytes, -, hfits⟩ := writeTo_ok h
  obtain ⟨hbytes', -, hfits'⟩ := writeTo_ok h'
  rw [hbytes, hbytes'] at hsent
  obtain ⟨hname, hsize, hticket⟩ := layout_inj hfits hfits' (List.append_cancel_left hsent)
  have hprinted := congrArg codec.parse (utf8Bytes_injective hticket)
  rw [hparse, hparse] at hprinted
  cases o
  cases o'
  simp_all

/-- No proper beginning of a written offer is accepted. -/
theorem readFrom_of_prefix
    (hproper : ∀ t text, text.toList <+: (codec.print t).toList → text ≠ codec.print t →
      codec.parse text = none)
    {s : SendStream} (hwrite : (offer.writeTo codec).run {} = .ok () s) {bytes : List UInt8}
    (hpre : bytes <+: s.sent) (hne : bytes ≠ s.sent) (fin : Bool) :
    ∃ e, outcome ((readFrom codec).run ⟨bytes, fin⟩) = .error e := by
  cases hrun : (readFrom codec).run ⟨bytes, fin⟩ with
  | error e r => exact ⟨e, rfl⟩
  | ok other r =>
    exfalso
    obtain ⟨hsent, -, hfits⟩ := writeTo_ok hwrite
    obtain ⟨⟨text, rfl, hname, -, hparse⟩, -⟩ := readFrom_ok hrun
    obtain ⟨rest, hrest⟩ := hpre
    rw [hsent, List.nil_append, encoded_eq_layout, layout_append] at hrest
    rw [hsent, List.nil_append, encoded_eq_layout] at hne
    obtain ⟨hname', hsize, hticket⟩ :=
      layout_inj (Nat.lt_of_le_of_lt hname (by decide)) hfits hrest
    have hshorter : text ≠ codec.print offer.ticket := by
      rintro rfl
      exact hne (by rw [hname', hsize])
    rw [hproper offer.ticket text (isPrefix_of_utf8Bytes_append hticket) hshorter] at hparse
    cases hparse

/-- **`read_from` accepts exactly the offer grammar.**  For every ended stream, and a text
form of tickets whose parser inverts its printer and parses no proper beginning of a
printed ticket.  The fields are determined by the bytes; what is accepted and has a ticket
text of at most 4096 bytes is written back to a stream that is read as the same offer;
`write_to` is injective; no proper beginning of what it writes is accepted. -/
theorem readFrom_grammar {codec : TicketCodec}
    (hparse : ∀ t, codec.parse (codec.print t) = some t)
    (hproper : ∀ t text, text.toList <+: (codec.print t).toList → text ≠ codec.print t →
      codec.parse text = none) :
    (∀ bytes offer, outcome ((readFrom codec).run ⟨bytes, true⟩) = .ok offer ↔
      Grammar codec bytes offer) ∧
    (∀ bytes, (∀ offer, ¬ Grammar codec bytes offer) →
      ∃ e, outcome ((readFrom codec).run ⟨bytes, true⟩) = .error e) ∧
    (∀ f f' n n' s s', (utf8Bytes f).length ≤ 255 → (utf8Bytes f').length ≤ 255 →
      layout f n s = layout f' n' s' → f = f' ∧ n = n' ∧ s = s') ∧
    (∀ bytes offer, outcome ((readFrom codec).run ⟨bytes, true⟩) = .ok offer →
      (utf8Bytes (codec.print offer.ticket)).length ≤ 4096 →
      ∃ s, (offer.writeTo codec).run {} = .ok () s ∧
        outcome ((readFrom codec).run ⟨s.sent, s.finished⟩) = .ok offer) ∧
    (∀ o o' : Offer, ∀ s t t', (o.writeTo codec).run s = .ok () t →
      (o'.writeTo codec).run s = .ok () t' → t.sent = t'.sent → o = o') ∧
    (∀ (offer : Offer) s bytes, (offer.writeTo codec).run {} = .ok () s → bytes <+: s.sent →
      bytes ≠ s.sent → ∀ fin, ∃ e, outcome ((readFrom codec).run ⟨bytes, fin⟩) = .error e) := by
  refine ⟨fun bytes offer => readFrom_iff_grammar bytes, ?_, ?_, ?_, ?_, ?_⟩
  · intro bytes hnone
    cases hrun : outcome ((readFrom codec).run ⟨bytes, true⟩) with
    | ok offer => exact absurd ((readFrom_iff_grammar bytes).mp hrun) (hnone offer)
    | error e => exact ⟨e, rfl⟩
  · intro f f' n n' s s' hf hf' h
    exact layout_inj (Nat.lt_of_le_of_lt hf (by decide)) (Nat.lt_of_le_of_lt hf' (by decide)) h
  · intro bytes offer hread hticket
    exact writeTo_of_accepted hparse hread hticket
  · intro o o' s t t' h h' hsent
    exact writeTo_inj hparse h h' hsent
  · intro offer s bytes hwrite hpre hne fin
    exact readFrom_of_prefix hproper hwrite hpre hne fin

/-! A text form of all tickets: `blob`, a number in strokes, and a point. -/

/-- The number of a ticket. -/
def ticketNumber (ticket : BlobTicket) : Nat :=
  Encodable.encode (ticket.addr.id.key, ticket.addr.addrs.map (fun a => a.toList.map Char.toNat),
    ticket.hash.digest, decide (ticket.format = .hashSeq))

/-- The ticket of a number. -/
def ofTicketNumber (n : Nat) : Option BlobTicket :=
  (Encodable.decode (α := Nat × List (List Nat) × Nat × Bool) n).map
    fun (key, addrs, digest, hashSeq) =>
      ⟨⟨⟨key⟩, addrs.map (fun a => String.ofList (a.map Char.ofNat))⟩, ⟨digest⟩,
        if hashSeq then .hashSeq else .raw⟩

def strokes (n : Nat) : List Char := "blob".toList ++ List.replicate n '|' ++ ['.']

def strokeCodec : TicketCodec where
  print ticket := String.ofList (strokes (ticketNumber ticket))
  parse text :=
    let n := text.toList.length - 5
    if text.toList = strokes n then ofTicketNumber n else none

theorem ofTicketNumber_ticketNumber (ticket : BlobTicket) :
    ofTicketNumber (ticketNumber ticket) = some ticket := by
  obtain ⟨⟨⟨key⟩, addrs⟩, ⟨digest⟩, format⟩ := ticket
  rw [ofTicketNumber, ticketNumber, Encodable.encodek]
  have haddrs : (addrs.map (fun a => a.toList.map Char.toNat)).map
      (fun a => String.ofList (a.map Char.ofNat)) = addrs := by
    simp [List.map_map, Function.comp_def]
  simp only [Option.map_some, haddrs]
  cases format <;> rfl

theorem strokeCodec_parse_print (ticket : BlobTicket) :
    strokeCodec.parse (strokeCodec.print ticket) = some ticket := by
  have hlen : (strokes (ticketNumber ticket)).length - 5 = ticketNumber ticket := by
    simp [strokes]
  simp only [strokeCodec, String.toList_ofList, hlen, if_pos]
  exact ofTicketNumber_ticketNumber ticket

/-- The point is at the end only. -/
theorem strokes_prefix {m n : Nat} (h : strokes m <+: strokes n) : m = n := by
  have hstrokes : List.replicate m '|' ++ ['.'] <+: List.replicate n '|' ++ ['.'] := by
    simp only [strokes, List.append_assoc] at h
    exact (List.prefix_append_right_inj _).mp h
  have hlen := hstrokes.length_le
  simp only [List.length_append, List.length_replicate, List.length_singleton] at hlen
  obtain ⟨rest, hrest⟩ := hstrokes
  have hpoint := congrArg (·[m]?) hrest
  by_contra hne
  simp [List.getElem?_append, show m < n by omega] at hpoint

theorem strokeCodec_prefix (ticket : BlobTicket) (text : String)
    (hpre : text.toList <+: (strokeCodec.print ticket).toList)
    (hne : text ≠ strokeCodec.print ticket) : strokeCodec.parse text = none := by
  simp only [strokeCodec, String.toList_ofList] at hpre hne ⊢
  refine if_neg fun htext => hne ?_
  rw [htext] at hpre
  rw [← strokes_prefix hpre, ← htext, String.ofList_toList]

theorem dropLast_ne_encoded (codec : TicketCodec) (offer : Offer) :
    (offer.encoded codec).dropLast ≠ offer.encoded codec := by
  intro heq
  have hlen := congrArg List.length heq
  have hlong : 2 ≤ (offer.encoded codec).length := by
    simp only [encoded, List.length_append, length_toBytesBE]
    omega
  rw [List.length_dropLast] at hlen
  omega

/-- A written offer without its last byte is refused. -/
theorem readFrom_grammar_cut :
    ∃ e, outcome ((readFrom strokeCodec).run
      ⟨(sampleOffer.encoded strokeCodec).dropLast, true⟩) = .error e :=
  have hfits : (utf8Bytes sampleOffer.filename).length < UInt16.size := by decide
  (readFrom_grammar strokeCodec_parse_print strokeCodec_prefix).2.2.2.2.2 sampleOffer _ _
    (writeTo_of_open hfits) (List.dropLast_prefix _) (dropLast_ne_encoded _ _) true

end Offer
end IrohShare
