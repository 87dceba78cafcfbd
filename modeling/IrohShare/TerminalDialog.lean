import IrohShare.Terminal
import IrohShare.OfferTrails

/-!
# The dialog at the terminal

What the loop prints and reads, in the order of the run, is a sequence of exchanges,
one prompt and the reads to the end of its line each, with at most one exchange
open.  The prompts are the offers in the order they came into the channel, each
once.  The chunks are accounted for byte by byte: each is part of the line of one
exchange, or stood behind that line in the chunk that ended it and is lost.

The line of an exchange is read by a reader of its own, which `confirm` makes and throws
away.  So an `Exchange` carries with it that its chunks are exactly those up to the one that
ends the line, and what stood behind the newline there (`lost`) is seen by nobody.

`Midway` ties the events since the last complete exchange to where the loop is: there are
none while it waits for an offer, and otherwise one prompt and the chunks read for it.  The
proof goes step by step (`Told.step`): a step of a handler leaves the dialog alone, `recv`
opens an exchange, a read goes on with it, and the answer completes it.
-/
namespace IrohShare
namespace Terminal
open ByteStream LineInput Transition

/-! ## Exchanges -/

/-- The events of the loop. -/
def Event.ofLoop : Event → Bool
  | prompted _ | read _ | answered .. => true
  | _ => false

/-- What the loop printed, read and sent, oldest first. -/
def dialog (log : List Event) : List Event := (log.filter Event.ofLoop).reverse

/-- The offers a handler put into the channel, oldest first. -/
def queued (log : List Event) : List OfferRequest :=
  (log.filterMap (fun
    | .queued request => some request
    | _ => none)).reverse

/-- The offers that events prompt for. -/
def prompts (events : List Event) : List OfferRequest :=
  events.filterMap (fun
    | .prompted request => some request
    | _ => none)

/-- The chunks that events read. -/
def readIn (events : List Event) : List (List UInt8) :=
  events.filterMap (fun
    | .read chunk => some chunk
    | _ => none)

/-- A prompt, the chunks read for it to the end of the line, and the decision sent. -/
structure Exchange where
  request : OfferRequest
  chunks : List (List UInt8)
  answer : String
  lost : List UInt8
  delivered : Bool
  complete : feeds [] chunks = some (.done (utf8Bytes answer) lost)

/-- The events of an exchange. -/
def Exchange.events (x : Exchange) : List Event :=
  .prompted x.request :: x.chunks.map .read ++ [.answered x.request x.answer x.delivered]

/-- The events since the last complete exchange, by where the loop is. -/
def Midway : TerminalLoop → List Event → Prop
  | .selecting, rest => rest = []
  | .reading request line, rest => ∃ cs,
    rest = .prompted request :: cs.map .read ∧ feeds [] cs = some (.more line)
  | .answering request answer, rest => ∃ cs lost,
    rest = .prompted request :: cs.map .read ∧
      feeds [] cs = some (.done (utf8Bytes answer) lost)
  | .ended _, rest => rest = [] ∨ ∃ request, ∃ cs : List (List UInt8),
    rest = .prompted request :: cs.map .read

variable {downloadDir : String} {s s' : Terminal} {log : List Event} {event : Option Event}

/-- A step adds its event to the dialog, if it is one of the loop. -/
theorem dialog_cons (e : Event) :
    dialog (e :: log) = dialog log ++ if e.ofLoop then [e] else [] := by
  cases h : e.ofLoop <;> simp [dialog, h]

@[simp] theorem prompts_append (es es' : List Event) :
    prompts (es ++ es') = prompts es ++ prompts es' := List.filterMap_append ..

@[simp] theorem prompts_reads (cs : List (List UInt8)) : prompts (cs.map .read) = [] := by
  simp [prompts, List.filterMap_map]

@[simp] theorem prompts_prompted (request : OfferRequest) (es : List Event) :
    prompts (.prompted request :: es) = request :: prompts es := rfl

@[simp] theorem readIn_append (es es' : List Event) :
    readIn (es ++ es') = readIn es ++ readIn es' := List.filterMap_append ..

@[simp] theorem readIn_prompted (request : OfferRequest) (es : List Event) :
    readIn (.prompted request :: es) = readIn es := rfl

/-- An exchange has read its chunks. -/
theorem Exchange.readIn_events (x : Exchange) : readIn x.events = x.chunks := by
  simp [Exchange.events, readIn, List.filterMap_map]

/-- What the exchanges have read, in order. -/
theorem readIn_exchanges (xs : List Exchange) :
    readIn (xs.flatMap Exchange.events) = (xs.map Exchange.chunks).flatten := by
  induction xs with
  | nil => rfl
  | cons x xs ih =>
    rw [List.flatMap_cons, readIn_append, x.readIn_events, ih, List.map_cons, List.flatten_cons]

/-! ## The dialog of a run -/

/-- The dialog is `exchanges` and what the loop is in the midst of, and its prompts and
the queue are all that was queued. -/
structure Told (s : Terminal) (log : List Event) (exchanges : List Exchange)
    (rest : List Event) : Prop where
  dialog : dialog log = exchanges.flatMap Exchange.events ++ rest
  midway : Midway s.loop rest
  queued : queued log = exchanges.map Exchange.request ++ prompts rest ++ s.queue

/-- **A step goes on with the dialog.** -/
theorem Told.step {exchanges : List Exchange} {rest : List Event}
    (ht : Told s log exchanges rest) {a : Action} (hst : Step downloadDir s a event s') :
    ∃ exchanges' rest', Told s' (event.toList ++ log) exchanges' rest' := by
  obtain ⟨hdialog, hmidway, hqueued⟩ := ht
  cases hst with
  | @task a event _ _ _ _ hqueue hloop =>
    refine ⟨exchanges, rest, ?_, hloop ▸ hmidway, ?_⟩
    · cases event <;> simpa [dialog_cons, Event.ofLoop] using hdialog
    · rw [hqueue]
      cases event <;> simpa [Terminal.queued] using hqueued
  | enqueue =>
    refine ⟨exchanges, rest, by simpa [dialog_cons, Event.ofLoop] using hdialog, hmidway, ?_⟩
    rw [← List.append_assoc, ← hqueued]
    simp [Terminal.queued]
  | @recv request queue hloop hqueue =>
    rw [hloop] at hmidway
    subst hmidway
    refine ⟨exchanges, [.prompted request], ?_, ⟨[], rfl, rfl⟩, ?_⟩
    · simp [dialog_cons, Event.ofLoop, hdialog]
    · simpa [Terminal.queued, hqueue, prompts] using hqueued
  | @more request line chunk line' hloop hfeed =>
    rw [hloop] at hmidway
    obtain ⟨cs, rfl, hfeeds⟩ := hmidway
    refine ⟨exchanges, .prompted request :: (cs ++ [chunk]).map .read, ?_, ⟨_, rfl, ?_⟩, ?_⟩
    · simp [dialog_cons, Event.ofLoop, hdialog]
    · rw [feeds_concat hfeeds, hfeed]
    · simpa [Terminal.queued, prompts] using hqueued
  | @line request line chunk line' lost answer hloop hfeed hdecode =>
    rw [hloop] at hmidway
    obtain ⟨cs, rfl, hfeeds⟩ := hmidway
    refine ⟨exchanges, .prompted request :: (cs ++ [chunk]).map .read, ?_, ⟨_, lost, rfl, ?_⟩, ?_⟩
    · simp [dialog_cons, Event.ofLoop, hdialog]
    · rw [feeds_concat hfeeds, hfeed, utf8Bytes_of_utf8Decode hdecode]
    · simpa [Terminal.queued, prompts] using hqueued
  | @invalid request line chunk line' lost hloop hfeed hdecode =>
    rw [hloop] at hmidway
    obtain ⟨cs, rfl, -⟩ := hmidway
    refine ⟨exchanges, .prompted request :: (cs ++ [chunk]).map .read, ?_, .inr ⟨_, _, rfl⟩, ?_⟩
    · simp [dialog_cons, Event.ofLoop, hdialog]
    · simpa [Terminal.queued, prompts, abandon] using hqueued
  | readFails hloop =>
    rw [hloop] at hmidway
    obtain ⟨cs, rfl, -⟩ := hmidway
    exact ⟨exchanges, _, hdialog, .inr ⟨_, cs, rfl⟩, hqueued⟩
  | @answer request answer hloop =>
    rw [hloop] at hmidway
    obtain ⟨cs, lost, rfl, hfeeds⟩ := hmidway
    -- the open exchange is complete
    let x : Exchange :=
      ⟨request, cs, answer, lost, Desk.deliverable s.handlers request.decision, hfeeds⟩
    refine ⟨exchanges ++ [x], [], ?_, rfl, ?_⟩
    · simp [dialog_cons, Event.ofLoop, hdialog, x, Exchange.events]
    · simpa [Terminal.queued, prompts, x] using hqueued
  | ctrlC hloop =>
    rw [hloop] at hmidway
    exact ⟨exchanges, rest, hdialog, .inl hmidway, hqueued⟩

/-- Every run has its dialog. -/
theorem told {l : Logged Terminal Event} (hl : (logged downloadDir).Reachable l) :
    ∃ exchanges rest, Told l.state l.log exchanges rest := by
  refine hl.invariant (I := fun l => ∃ exchanges rest, Told l.state l.log exchanges rest) ?_ ?_
  · rintro ⟨s, log⟩ ⟨hs, hlog⟩
    cases hs
    cases hlog
    exact ⟨[], [], rfl, rfl, rfl⟩
  · rintro l a l' - ⟨exchanges, rest, ht⟩ - hst
    obtain ⟨hst, hlog⟩ := logged_step_spec hst
    exact hlog ▸ ht.step hst

/-! ## Who was prompted for -/

/-- A step keeps the offer of every handler. -/
theorem Step.follows {a : Action} (hst : Step downloadDir s a event s') {h : HandlerId}
    {handler : Handler} (hh : s.handlers h = some handler) :
    ∃ handler', s'.handlers h = some handler' ∧ Desk.Follows handler' handler := by
  cases hst with
  | task _ _ hst => exact hst.follows hh
  | enqueue hh₀ => exact Desk.follows_update hh₀ ⟨rfl, rfl, fun _ => ⟨nofun, nofun⟩⟩ hh
  | invalid | readFails => exact Desk.follows_dropSenders _ hh
  | answer => exact Desk.follows_deliver _ hh
  | recv | more | line | ctrlC => exact ⟨handler, hh, .refl _⟩

/-- Each offer that was queued is the offer of its handler, and of no other. -/
structure Offered (s : Terminal) (log : List Event) : Prop where
  handler : ∀ request ∈ queued log, ∃ handler, s.handlers request.decision = some handler ∧
    handler.enqueued ∧ handler.offer = request.offer
  nodup : ((queued log).map OfferRequest.decision).Nodup
  room : s.queue.length ≤ Desk.queueCapacity

/-- **Offers are queued once.**  Only `enqueue` adds to what was queued, for a handler that has
not been there. -/
theorem Offered.step (ho : Offered s log) {a : Action} (hst : Step downloadDir s a event s') :
    Offered s' (event.toList ++ log) := by
  have hfollows : ∀ request ∈ queued log, ∃ handler, s'.handlers request.decision = some handler ∧
      handler.enqueued ∧ handler.offer = request.offer := by
    intro request hmem
    obtain ⟨handler, hh, henqueued, hoffer⟩ := ho.handler request hmem
    obtain ⟨handler', hh', hf⟩ := hst.follows hh
    exact ⟨handler', hh', hf.enqueued henqueued, hf.offer.trans hoffer⟩
  -- only `enqueue` adds to what was queued
  have hframe : queued (event.toList ++ log) = queued log →
      s'.queue.length ≤ s.queue.length → Offered s' (event.toList ++ log) :=
    fun hsame hle => ⟨hsame ▸ hfollows, hsame ▸ ho.nodup, Nat.le_trans hle ho.room⟩
  cases hst with
  | @enqueue h handler hh hphase hroom =>
    have hnew :
        queued (.queued ⟨handler.offer, h⟩ :: log) = queued log ++ [⟨handler.offer, h⟩] := by
      simp [queued]
    have hfresh : h ∉ (queued log).map OfferRequest.decision := by
      intro hmem
      obtain ⟨request, hmem, hdecision⟩ := List.mem_map.mp hmem
      obtain ⟨handler', hh', henqueued, -⟩ := ho.handler request hmem
      rw [hdecision, hh] at hh'
      cases hh'
      exact henqueued.2 hphase
    refine ⟨fun request hmem => ?_, ?_, ?_⟩
    · rw [Option.toList_some, List.singleton_append, hnew] at hmem
      rcases List.mem_append.mp hmem with hmem | hmem
      · exact hfollows request hmem
      · cases List.mem_singleton.mp hmem
        exact ⟨_, Function.update_self .., ⟨nofun, nofun⟩, rfl⟩
    · rw [Option.toList_some, List.singleton_append, hnew]
      simp only [List.map_append, List.map_cons, List.map_nil]
      refine List.nodup_append.mpr ⟨ho.nodup, by simp, fun y hy z hz => ?_⟩
      rw [List.mem_singleton.mp hz]
      exact ne_of_mem_of_not_mem hy hfresh
    · rw [List.length_append]
      exact hroom
  | @task _ event _ _ _ _ hqueue _ =>
    refine hframe ?_ (Nat.le_of_eq (congrArg _ hqueue))
    cases event <;> simp [queued]
  | recv hloop hqueue => exact hframe (by simp [queued]) (by simp [hqueue])
  | _ => exact hframe (by simp [queued]) (Nat.le_refl _)

/-- What was queued in a run. -/
theorem offered {l : Logged Terminal Event} (hl : (logged downloadDir).Reachable l) :
    Offered l.state l.log := by
  refine hl.invariant (I := fun l => Offered l.state l.log) ?_ ?_
  · rintro ⟨s, log⟩ ⟨hs, hlog⟩
    cases hs
    cases hlog
    exact ⟨by simp [queued], by simp [queued], Nat.zero_le _⟩
  · rintro l a l' - ho - hst
    obtain ⟨hst, hlog⟩ := logged_step_spec hst
    exact hlog ▸ ho.step hst

/-! ## Order and input -/

/-- **The prompts come in order.**  In every run the dialog is a sequence of complete
exchanges and at most one that is open; the offers prompted for, then the queue, are
all the offers queued, in their order and each of a handler of its own.  So no offer
is skipped, repeated or prompted for before another one is answered, and the queue
never outgrows the channel. -/
theorem prompts_in_order {l : Logged Terminal Event} (hl : (logged downloadDir).Reachable l) :
    ∃ (exchanges : List Exchange) (rest : List Event),
      dialog l.log = exchanges.flatMap Exchange.events ++ rest ∧
      Midway l.state.loop rest ∧
      queued l.log = exchanges.map Exchange.request ++ prompts rest ++ l.state.queue ∧
      ((queued l.log).map OfferRequest.decision).Nodup ∧
      l.state.queue.length ≤ Desk.queueCapacity ∧
      ∀ request ∈ queued l.log, ∃ handler, l.state.handlers request.decision = some handler ∧
        handler.offer = request.offer := by
  obtain ⟨exchanges, rest, ht⟩ := told hl
  have ho := offered hl
  refine ⟨exchanges, rest, ht.dialog, ht.midway, ht.queued, ho.nodup, ho.room, ?_⟩
  intro request hmem
  obtain ⟨handler, hh, -, hoffer⟩ := ho.handler request hmem
  exact ⟨handler, hh, hoffer⟩

/-- **Where the input goes.**  What was read is, in order, the lines of the complete
exchanges, each with what is lost behind it, and what was read since: nothing while the loop
waits for an offer, and otherwise what the open prompt has read.  A line has no
newline but its last byte, and has one unless the input ended; what is lost stood
behind the line in the last chunk of its exchange.  If every chunk is at most a line,
as a terminal gives them, nothing is lost. -/
theorem lines_in_order {l : Logged Terminal Event} (hl : (logged downloadDir).Reachable l) :
    ∃ (exchanges : List Exchange) (rest : List Event),
      dialog l.log = exchanges.flatMap Exchange.events ++ rest ∧
      Midway l.state.loop rest ∧
      (readIn (dialog l.log)).flatten =
        (exchanges.map (fun x => utf8Bytes x.answer ++ x.lost)).flatten ++ (readIn rest).flatten ∧
      (∀ x ∈ exchanges,
        (newline ∉ utf8Bytes x.answer ∧ x.lost = [] ∧ x.chunks.getLast? = some [] ∨
          ∃ body, utf8Bytes x.answer = body ++ [newline] ∧ newline ∉ body) ∧
        ∃ last, x.chunks.getLast? = some last ∧ x.lost <:+ last) ∧
      ((∀ chunk ∈ readIn (dialog l.log), OneLine chunk) → (readIn (dialog l.log)).flatten =
        (exchanges.map (fun x => utf8Bytes x.answer)).flatten ++ (readIn rest).flatten) := by
  obtain ⟨exchanges, rest, ht⟩ := told hl
  have hread : readIn (dialog l.log) = (exchanges.map Exchange.chunks).flatten ++ readIn rest := by
    rw [ht.dialog, readIn_append, readIn_exchanges]
  have hflat : (readIn (dialog l.log)).flatten =
      (exchanges.map (fun x => utf8Bytes x.answer ++ x.lost)).flatten ++ (readIn rest).flatten := by
    rw [hread, List.flatten_append, List.flatten_flatten, List.map_map]
    congr 2
    exact List.map_congr_left (fun x _ => (feeds_done x.complete).1)
  refine ⟨exchanges, rest, ht.dialog, ht.midway, hflat, fun x _ => ?_, fun hone => ?_⟩
  · obtain ⟨-, hline, hlast, -⟩ := feeds_done x.complete
    exact ⟨hline, hlast⟩
  · rw [hflat]
    congr 2
    refine List.map_congr_left (fun x hx => ?_)
    have hlost : x.lost = [] := by
      refine (feeds_done x.complete).2.2.2 (fun chunk hmem => hone chunk ?_)
      rw [hread]
      exact List.mem_append_left _ (List.mem_flatten.mpr ⟨_, List.mem_map_of_mem hx, hmem⟩)
    rw [hlost, List.append_nil]

/-- Two peers offer; the user types both answers ahead, and the second is lost. -/
def typeAhead : List Action :=
  [.task (.connect 0 ⟨1⟩ Offer.sampleOffer), .task (.enqueue 0),
    .task (.connect 1 ⟨1⟩ Offer.sampleOffer), .task (.enqueue 1),
    .recv, .read [0x79, newline, 0x6E, newline], .answer, .recv, .read [0x79], .read [newline]]

/-- The chunks of that run. -/
theorem typeAhead_runs : ∃ l, (logged "/tmp").exec ⟨start, []⟩ typeAhead = some l ∧
    readIn (dialog l.log) = [[0x79, newline, 0x6E, newline], [0x79], [newline]] :=
  ⟨_, rfl, rfl⟩

theorem prompts_in_order_typeAhead : ∃ l, ∃ (exchanges : List Exchange) (rest : List Event),
    (logged "/tmp").exec ⟨start, []⟩ typeAhead = some l ∧
    dialog l.log = exchanges.flatMap Exchange.events ++ rest ∧
    Midway l.state.loop rest ∧
    queued l.log = exchanges.map Exchange.request ++ prompts rest ++ l.state.queue := by
  obtain ⟨l, hrun, -⟩ := typeAhead_runs
  obtain ⟨exchanges, rest, hdialog, hmidway, hqueued, -⟩ :=
    prompts_in_order (logged_reachable hrun)
  exact ⟨l, exchanges, rest, hrun, hdialog, hmidway, hqueued⟩

theorem lines_in_order_typeAhead : ∃ l, ∃ (exchanges : List Exchange) (rest : List Event),
    (logged "/tmp").exec ⟨start, []⟩ typeAhead = some l ∧
    dialog l.log = exchanges.flatMap Exchange.events ++ rest ∧
    Midway l.state.loop rest ∧
    [0x79, newline, 0x6E, newline, 0x79, newline] =
      (exchanges.map (fun x => utf8Bytes x.answer ++ x.lost)).flatten ++ (readIn rest).flatten := by
  obtain ⟨l, hrun, hread⟩ := typeAhead_runs
  obtain ⟨exchanges, rest, hdialog, hmidway, hflat, -⟩ := lines_in_order (logged_reachable hrun)
  exact ⟨l, exchanges, rest, hrun, hdialog, hmidway, by rw [← hflat, hread]; rfl⟩

end Terminal
end IrohShare
