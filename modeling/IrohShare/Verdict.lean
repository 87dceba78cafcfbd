import IrohShare.Sender
import IrohShare.Receiver

/-!
# The sender's verdict against the receiver's run

One session from the decision on: the receiver writes its answer (`session`), the
response stream is cut anywhere, and the sender reads what arrived (`verdict`).

`SessionEnd` says what a session can have put on the stream, one constructor for
each way it can end; the sender's verdict on a cut stream is then read off the
framing, without looking at the receiver again.
-/
namespace IrohShare
open ByteStream Receiving DownloadStatus

/-- The receiver's handler after the session, over a connection that takes `room`
more bytes. -/
def session (host : Host) (offer : Offer) (wait : DecisionWait) (room : Option Nat)
    (watched : Bool) : Receiving :=
  final ((respond host offer wait).run { send := { room }, watched })

/-- What the sender makes of the bytes that arrived.  Its callers keep the receiver
of `progress_tx` for as long as it runs. -/
def verdict (arrived : List UInt8) (fin : Bool) : EStateM.Result String Sending SendOutcome :=
  awaitResponse { recv := ⟨arrived, fin⟩ }

/-- The accept byte and then the progress frames of `reported` have gone out, and if a
write failed part of one more frame. -/
def Framed (s : Receiving) : Prop :=
  s.send.finished = false ∧ ∃ part, Partial part ∧
    s.send.sent = 1 :: (progressFrames s.reported ++ part) ∧ (s.send.lost = false → part = [])

/-- The last byte of the answer to an accepted offer. -/
def terminal : Except String Unit → UInt8
  | .ok () => 3
  | .error _ => 4

/-- How a session can end.  `declined`: `accept_decision` was not entered.
`unanswered`: the accept byte did not go out.  `answered`: `download` returned, and
its answer was written whole.  `broken`: a write failed while it ran or after it. -/
inductive SessionEnd (host : Host) (offer : Offer) (wait : DecisionWait) (s : Receiving) : Prop
  | declined : (∀ dir, wait.decisionUi ≠ some (.accept dir)) → s.returned = none →
      (s.send.sent = [0] ∨ s.send.lost = true ∧ s.send.sent = []) → SessionEnd host offer wait s
  | unanswered (dir : String) : wait.decisionUi = some (.accept dir) → s.returned = none →
      s.send.lost = true → s.send.sent = [] → SessionEnd host offer wait s
  | answered (dir : String) (r : Except String Unit) :
      wait.decisionUi = some (.accept dir) → s.returned = some r →
      s.send.sent = 1 :: (progressFrames s.reported ++ [terminal r]) →
      (r = .ok () → ∃ name, Path.fileName offer.filename = some name ∧
        s.files = [(Path.join dir name, host.blob offer.ticket.hash)]) →
      SessionEnd host offer wait s
  | broken (part : List UInt8) : s.send.lost = true → Partial part →
      s.send.sent = 1 :: (progressFrames s.reported ++ part) → SessionEnd host offer wait s

/-! ## The receiver's stream -/

section Stream
variable {host : Host} {offer : Offer} {wait : DecisionWait}

/-- Reporting a progress value keeps the stream framed. -/
theorem keeps_framed_sendProgress (bytes : UInt64) :
    Keeps (fun s => Framed s ∧ s.returned = none) (sendProgress bytes) := by
  rintro s ⟨⟨hfin, part, hpart, hsent, hlost⟩, hret⟩
  obtain ⟨progress, h | ⟨e, send, hwrite, h⟩ | ⟨send, hwrite, h⟩⟩ := sendProgress_final bytes s
  · rw [h]
    exact ⟨⟨hfin, part, hpart, hsent, hlost⟩, hret⟩
  · obtain ⟨hfin', hlost', part', hsent', hpart', hempty⟩ := writeTo_error hfin hwrite
    rw [h]
    refine ⟨⟨hfin', ?_⟩, hret⟩
    -- either an earlier write had failed and nothing more went out, or this one did
    cases hl : s.send.lost with
    | true =>
      refine ⟨part, hpart, ?_, fun habs => absurd (hlost'.symm.trans habs) (by decide)⟩
      rw [hsent', hempty hl, hsent, List.append_nil]
    | false =>
      refine ⟨part', hpart', ?_, fun habs => absurd (hlost'.symm.trans habs) (by decide)⟩
      rw [hsent', hsent, hlost hl, List.append_nil]
      rfl
  · obtain ⟨hsent', hfin', hl, hlost'⟩ := writeTo_ok hwrite
    rw [h]
    refine ⟨⟨hfin'.trans hfin, [], .inl rfl, ?_, fun _ => rfl⟩, hret⟩
    show send.sent = _
    rw [hsent', hsent, hlost hl]
    simp

/-- `download` keeps the stream framed however it ends. -/
theorem keeps_framed_download (host : Host) (offer : Offer) (dir : String) :
    Keeps (fun s => Framed s ∧ s.returned = none) (download host dir offer) := by
  refine (Keeps.orThrow _ _).bind (fun name => ?_)
  refine (keeps_ask _).bind (fun there => ?_)
  refine Keeps.ite (.throw _) ?_
  refine (keeps_ask _).bind (fun _ => ?_)
  refine (Keeps.context (keeps_ask _)).bind (fun items => ?_)
  refine (keeps_forwardItems keeps_framed_sendProgress items).bind (fun _ => ?_)
  refine (Keeps.context (keeps_ask _)).bind (fun _ => ?_)
  refine Keeps.bind (fun s hs => hs) (fun _ => ?_)
  exact fun s hs => hs

/-- Ending the stream changes no byte of it. -/
theorem onSend_finish_final (s : Receiving) :
    ∃ send, final ((onSend SendStream.finish).run s) = { s with send } ∧
      send.sent = s.send.sent ∧ send.lost = s.send.lost := by
  cases h : (onSend SendStream.finish).run s with
  | ok _ t =>
    obtain ⟨send, hfinish, rfl⟩ := onSend_ok h
    obtain ⟨hsent, -, hlost⟩ := SendStream.finish_ok hfinish
    exact ⟨send, rfl, hsent, hlost⟩
  | error e t =>
    obtain ⟨send, hfinish, rfl⟩ := onSend_error h
    rw [SendStream.finish_error hfinish]
    exact ⟨_, rfl, rfl, rfl⟩

/-- What is left after a last status frame of one byte `t`, followed by steps that
write nothing: the whole answer, or a stream on which a write failed. -/
theorem terminal_frame {s : Receiving} (hs : Framed s) {status : DownloadStatus} {t : UInt8}
    (hframe : status.frame = [t]) {k : Unit → EStateM String Receiving Unit}
    (hk : ∀ u, ∃ send, final ((k ()).run u) = { u with send } ∧
      send.sent = u.send.sent ∧ send.lost = u.send.lost) :
    ∃ send, final ((onSend status.writeTo >>= k).run s) = { s with send } ∧
      (send.sent = 1 :: (progressFrames s.reported ++ [t]) ∨
        send.lost = true ∧ ∃ part, Partial part ∧
          send.sent = 1 :: (progressFrames s.reported ++ part)) := by
  obtain ⟨hfin, part, hpart, hsent, hlost⟩ := hs
  rw [EStateM.run_bind]
  cases h : (onSend status.writeTo).run s with
  | ok _ u =>
    obtain ⟨send, hwrite, rfl⟩ := onSend_ok h
    obtain ⟨hsent', -, hl, -⟩ := writeTo_ok hwrite
    obtain ⟨send', hfinal, hsame, -⟩ := hk { s with send }
    refine ⟨send', hfinal, .inl ?_⟩
    rw [hsame]
    show send.sent = _
    rw [hsent', hsent, hlost hl, hframe]
    simp
  | error e u =>
    obtain ⟨send, hwrite, rfl⟩ := onSend_error h
    obtain ⟨-, hlost', part', hsent', hpart', hempty⟩ := writeTo_error hfin hwrite
    refine ⟨send, rfl, .inr ⟨hlost', ?_⟩⟩
    -- a write had failed before, and nothing more went out; or this one did
    cases hl : s.send.lost with
    | true => exact ⟨part, hpart, by rw [hsent', hempty hl, hsent, List.append_nil]⟩
    | false =>
      refine ⟨part', hpart', ?_⟩
      rw [hsent', hsent, hlost hl, List.append_nil]
      rfl

/-- The handler before it answers. -/
theorem writeU8_start_final (b : UInt8) (room : Option Nat) (watched : Bool) :
    let s : Receiving := { send := { room }, watched }
    (∃ e send, (onSend (SendStream.writeU8 b)).run s = .error e { s with send } ∧
      send.lost = true ∧ send.sent = []) ∨
    ∃ send, (onSend (SendStream.writeU8 b)).run s = .ok () { s with send } ∧
      send.finished = false ∧ send.lost = false ∧ send.sent = [b] := by
  intro s
  cases h : (onSend (SendStream.writeU8 b)).run s with
  | ok _ u =>
    obtain ⟨send, hwrite, rfl⟩ := onSend_ok h
    obtain ⟨hsent, hfin, -, hlost⟩ := SendStream.writeAll_ok hwrite
    exact .inr ⟨send, rfl, hfin, hlost, hsent⟩
  | error e u =>
    obtain ⟨send, hwrite, rfl⟩ := onSend_error h
    obtain ⟨-, hlost, r, hsent, hr⟩ := SendStream.writeAll_error rfl hwrite
    have hr0 : r = 0 := by
      rcases hr with hr | ⟨-, hr⟩
      · exact hr
      · simpa using hr
    exact .inl ⟨e, send, rfl, hlost, by simpa [hr0] using hsent⟩

end Stream

/-- **How a session ends.** -/
theorem session_end (host : Host) (offer : Offer) (wait : DecisionWait) (room : Option Nat)
    (watched : Bool) : SessionEnd host offer wait (session host offer wait room watched) := by
  unfold session respond
  split
  · rename_i dir hwait
    rw [acceptDecision, EStateM.run_bind]
    rcases writeU8_start_final DecisionStatus.accepted.toU8 room watched with
      ⟨e, send, h, hlost, hsent⟩ | ⟨send, h, hfin, hlost, hsent⟩
    · rw [h]
      exact .unanswered dir hwait rfl hlost hsent
    · rw [h]
      dsimp only
      rw [EStateM.run_bind, attempt_run]
      have hstart : Framed { send, watched } ∧ ({ send, watched : Receiving}).returned = none :=
        ⟨⟨hfin, [], .inl rfl, hsent, fun _ => rfl⟩, rfl⟩
      have hframed := keeps_framed_download host offer dir _ hstart
      cases hd : (download host dir offer).run { send, watched } with
      | ok _ t =>
        rw [hd] at hframed
        obtain ⟨name, hname, -, hfiles, -⟩ := download_ok hd
        let u : Receiving := { t with returned := some (.ok ()) }
        have hu : Framed u := hframed.1
        obtain ⟨send', hfinal, hend⟩ := terminal_frame hu
          (rfl : completed.frame = [3])
          (k := fun _ => onSend SendStream.finish) onSend_finish_final
        show SessionEnd host offer wait
          (final ((onSend completed.writeTo >>= fun _ => onSend SendStream.finish).run u))
        rw [hfinal]
        rcases hend with hsent' | ⟨hlost', part, hpart, hsent'⟩
        · exact .answered dir (.ok ()) hwait rfl hsent' (fun _ => ⟨name, hname, hfiles⟩)
        · exact .broken part hlost' hpart hsent'
      | error e t =>
        rw [hd] at hframed
        let u : Receiving := { t with returned := some (.error e) }
        have hu : Framed u := hframed.1
        obtain ⟨send', hfinal, hend⟩ := terminal_frame hu
          (rfl : failed.frame = [4])
          (k := fun _ => do
            let _ ← attempt (onSend SendStream.finish)
            throw e)
          (fun v => by
            rw [EStateM.run_bind, attempt_run]
            exact onSend_finish_final v)
        show SessionEnd host offer wait (final ((onSend failed.writeTo >>= fun _ => do
            let _ ← attempt (onSend SendStream.finish)
            throw e).run u))
        rw [hfinal]
        rcases hend with hsent' | ⟨hlost', part, hpart, hsent'⟩
        · exact .answered dir (.error e) hwait rfl hsent' (fun h => by cases h)
        · exact .broken part hlost' hpart hsent'
  · rename_i hwait
    rw [declineDecision, EStateM.run_bind, attempt_run]
    dsimp only
    rw [EStateM.run_bind, attempt_run]
    dsimp only
    have hdecline : ∀ dir, wait.decisionUi ≠ some (.accept dir) := fun dir h => hwait dir h
    rcases writeU8_start_final DecisionStatus.declined.toU8 room watched with
      ⟨e, send, h, hlost, hsent⟩ | ⟨send, h, hfin, hlost, hsent⟩
    · obtain ⟨send', hfinal, hsame, hsameLost⟩ := onSend_finish_final { send, watched }
      rw [h, final_error]
      show SessionEnd host offer wait (final ((onSend SendStream.finish).run { send, watched }))
      rw [hfinal]
      exact .declined hdecline rfl (.inr ⟨hsameLost.trans hlost, hsame.trans hsent⟩)
    · obtain ⟨send', hfinal, hsame, -⟩ := onSend_finish_final { send, watched }
      rw [h, final_ok]
      show SessionEnd host offer wait (final ((onSend SendStream.finish).run { send, watched }))
      rw [hfinal]
      exact .declined hdecline rfl (.inl (hsame.trans hsent))

/-! ## The verdict on a cut stream -/

theorem verdict_accepted (bytes : List UInt8) (fin : Bool) :
    verdict (1 :: bytes) fin = downloaded { recv := ⟨bytes, fin⟩ } := rfl

/-- A stream that ends inside or between frames fails, after pushing a prefix of the
progress values written. -/
theorem verdict_cut (values : List UInt64) {part : List UInt8} (hpart : Partial part) (k : Nat)
    (fin : Bool) :
    ∃ e s, verdict ((1 :: (progressFrames values ++ part)).take k) fin = .error e s ∧
      s.progress <+: values := by
  cases k with
  | zero => exact ⟨_, _, rfl, List.nil_prefix⟩
  | succ k =>
    obtain ⟨whole, part', htake, hpre, hpart'⟩ := take_progressFrames values hpart k
    obtain ⟨e, s, hrun, hprogress⟩ := downloaded_cut whole hpart' fin
    refine ⟨e, s, ?_, hprogress ▸ hpre⟩
    rw [List.take_succ_cons, htake, verdict_accepted]
    exact hrun

/-- A whole answer is read to its last byte: completed when `download` succeeded, an
error when it failed, with every progress value pushed. -/
theorem verdict_whole (values : List UInt64) (r : Except String Unit) (fin : Bool) :
    (final (verdict (1 :: (progressFrames values ++ [terminal r])) fin)).progress = values ∧
      ((r = .ok () ∧ outcome (verdict (1 :: (progressFrames values ++ [terminal r])) fin) =
          .ok .completed) ∨
        ∃ e, r = .error e ∧ ∃ e', outcome (verdict (1 :: (progressFrames values ++ [terminal r]))
          fin) = .error e') := by
  rw [verdict_accepted, downloaded_progressFrames]
  cases r with
  | ok _ =>
    have hread := readFrom_frame .completed [] fin
    rw [downloaded_of_completed hread]
    exact ⟨rfl, .inl ⟨rfl, rfl⟩⟩
  | error e =>
    have hread := readFrom_frame .failed [] fin
    rw [downloaded_of_failed hread]
    exact ⟨rfl, .inr ⟨e, rfl, _, rfl⟩⟩

/-- A cut before the end of a whole answer. -/
theorem take_answer (values : List UInt64) (t : UInt8) {k : Nat}
    (hk : k < (1 :: (progressFrames values ++ [t])).length) :
    (1 :: (progressFrames values ++ [t])).take k = (1 :: (progressFrames values ++ [])).take k := by
  rw [List.append_nil, ← List.cons_append,
    List.take_append_of_le_length (by simpa [Nat.lt_succ_iff] using hk)]

/-- What the sender may conclude from the first `cut` bytes of a session's stream. -/
structure VerdictSound (host : Host) (offer : Offer) (wait : DecisionWait) (st : Receiving)
    (cut : Nat) (v : EStateM.Result String Sending SendOutcome) : Prop where
  completed : outcome v = .ok .completed → st.returned = some (.ok ()) ∧
    ∃ dir name, wait.decisionUi = some (.accept dir) ∧ Path.fileName offer.filename = some name ∧
      st.files = [(Path.join dir name, host.blob offer.ticket.hash)]
  declined : outcome v = .ok .declined → st.returned = none
  cut_short : cut < st.send.sent.length → ∃ e, outcome v = .error e
  whole : st.send.lost = false → st.send.sent.length ≤ cut →
    (outcome v = .ok .completed ↔ st.returned = some (.ok ())) ∧
    (outcome v = .ok .declined ↔ ∀ dir, wait.decisionUi ≠ some (.accept dir)) ∧
    ((∃ e, outcome v = .error e) ↔ ∃ e, st.returned = some (.error e))
  progress : (final v).progress <+: st.reported

/-- A verdict that is an error is sound as long as the session was not whole, or
`download` failed. -/
theorem VerdictSound.of_error {host : Host} {offer : Offer} {wait : DecisionWait} {st : Receiving}
    {cut : Nat} {v : EStateM.Result String Sending SendOutcome} {e : String}
    (hv : outcome v = .error e) (hprogress : (final v).progress <+: st.reported)
    (hwhole : st.send.lost = false → st.send.sent.length ≤ cut →
      (∃ dir, wait.decisionUi = some (.accept dir)) ∧ ∃ e, st.returned = some (.error e)) :
    VerdictSound host offer wait st cut v where
  completed h := by
    rw [hv] at h
    cases h
  declined h := by
    rw [hv] at h
    cases h
  cut_short _ := ⟨e, hv⟩
  whole hlost hlen := by
    obtain ⟨⟨dir, hdir⟩, e', hret⟩ := hwhole hlost hlen
    rw [hv, hret]
    exact ⟨⟨nofun, nofun⟩, ⟨nofun, fun h => absurd hdir (h dir)⟩,
      ⟨fun _ => ⟨e', rfl⟩, fun _ => ⟨e, rfl⟩⟩⟩
  progress := hprogress

/-- **The sender's verdict is sound, whatever is cut.**  For every session and every
cut of its stream: `Completed` only if `download` exported the file and returned,
`Declined` only if it was never called, an error on every proper cut; on the whole
stream of a session without a failed write the verdict tells exactly how the session
ended; and what the sender pushed is a prefix of the progress values written. -/
theorem verdict_sound (host : Host) (offer : Offer) (wait : DecisionWait) (room : Option Nat)
    (watched : Bool) (cut : Nat) (fin : Bool) :
    VerdictSound host offer wait (session host offer wait room watched) cut
      (verdict ((session host offer wait room watched).send.sent.take cut) fin) := by
  generalize hst : session host offer wait room watched = st
  have hend : SessionEnd host offer wait st := hst ▸ session_end host offer wait room watched
  cases hend with
  | declined hno hret hsent =>
    rcases hsent with hsent | ⟨hlost, hsent⟩
    · cases cut with
      | zero =>
        refine .of_error (e := "accept byte was not received") rfl List.nil_prefix ?_
        intro _ hlen
        simp [hsent] at hlen
      | succ k =>
        rw [hsent, List.take_of_length_le (by simp)]
        exact {
          completed := nofun
          declined := fun _ => hret
          cut_short := fun h => by simp [hsent] at h
          whole := fun _ _ => by
            rw [hret]
            exact ⟨⟨nofun, nofun⟩, ⟨fun _ => hno, fun _ => rfl⟩, ⟨nofun, nofun⟩⟩
          progress := List.nil_prefix }
    · rw [hsent, List.take_nil]
      exact .of_error rfl List.nil_prefix (fun h => by simp [hlost] at h)
  | unanswered dir hdir hret hlost hsent =>
    rw [hsent, List.take_nil]
    exact .of_error rfl List.nil_prefix (fun h => by simp [hlost] at h)
  | answered dir r hdir hret hsent hfiles =>
    by_cases hcut : cut < st.send.sent.length
    · obtain ⟨e, s, hv, hpre⟩ := verdict_cut st.reported (.inl rfl) cut fin
      rw [hsent] at hcut ⊢
      rw [take_answer _ _ hcut, hv]
      refine .of_error rfl hpre (fun _ hlen => ?_)
      rw [hsent] at hlen
      omega
    · rw [List.take_of_length_le (by omega), hsent]
      obtain ⟨hprogress, hend⟩ := verdict_whole st.reported r fin
      -- the whole answer arrived
      have hpre := (List.prefix_refl st.reported)
      nth_rewrite 1 [← hprogress] at hpre
      obtain ⟨rfl, hv⟩ | ⟨e, rfl, e', hv⟩ := hend
      · obtain ⟨name, hname, hfile⟩ := hfiles rfl
        exact {
          completed := fun _ => ⟨hret, dir, name, hdir, hname, hfile⟩
          declined := fun h => by
            rw [hv] at h
            cases h
          cut_short := fun h => absurd h hcut
          whole := fun _ _ => by
            rw [hv, hret]
            exact ⟨⟨fun _ => rfl, fun _ => rfl⟩, ⟨nofun, fun h => absurd hdir (h dir)⟩,
              ⟨nofun, nofun⟩⟩
          progress := hpre }
      · exact .of_error hv hpre (fun _ _ => ⟨⟨dir, hdir⟩, e, hret⟩)
  | broken part hlost hpart hsent =>
    obtain ⟨e, s, hv, hpre⟩ := verdict_cut st.reported hpart cut fin
    rw [hsent, hv]
    exact .of_error rfl hpre (fun h => by simp [hlost] at h)

end IrohShare
