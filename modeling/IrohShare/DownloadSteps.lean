import IrohShare.ReceiveView

/-!
# The steps of a download

The handler of an accepted offer goes through `download`.  Each of its executions is a run
of the handler's steps: they publish the same values on the shared channel, the last one
after the export, and end finished or failed as `download` returns.
-/
namespace IrohShare
open ByteStream Receiving Transition
namespace ReceiveView

variable {s s' s'' : ReceiveView} {k : Nat} {t : Transfer}

/-- The handler of transfer `t` has come to `download` and has published `values`; nothing
else has changed. -/
structure Played (s s' : ReceiveView) (k : Nat) (t : Transfer) (download : DownloadPhase)
    (values : List Published) : Prop where
  transfer : s'.transfers k = some { t with download }
  others : ∀ j, j ≠ k → s'.transfers j = s.transfers j
  channel : s'.channel = values.foldl Watch.Channel.send s.channel
  reader : s'.reader = s.reader
  events : s'.events = s.events
  receive : s'.receive = s.receive
  timers : s'.timers = s.timers

theorem Played.refl (ht : s.transfers k = some t) : Played s s k t t.download [] :=
  ⟨ht, fun _ _ => rfl, rfl, rfl, rfl, rfl, rfl⟩

theorem Played.trans {download download' : DownloadPhase} {values values' : List Published}
    (h : Played s s' k t download values)
    (h' : Played s' s'' k { t with download } download' values') :
    Played s s'' k t download' (values ++ values') where
  transfer := h'.transfer
  others j hj := (h'.others j hj).trans (h.others j hj)
  channel := by rw [h'.channel, h.channel, List.foldl_append]
  reader := h'.reader.trans h.reader
  events := h'.events.trans h.events
  receive := h'.receive.trans h.receive
  timers := h'.timers.trans h.timers

/-- A step that publishes nothing. -/
theorem Played.set (s : ReceiveView) (k : Nat) (t : Transfer) (download : DownloadPhase) :
    Played s (s.setTransfer k { t with download }) k t download [] :=
  ⟨Function.update_self .., fun _ hj => Function.update_of_ne hj .., rfl, rfl, rfl, rfl, rfl⟩

/-- A step that publishes a value. -/
theorem Played.send (s : ReceiveView) (k : Nat) (t : Transfer) (download : DownloadPhase)
    (value : Published) :
    Played s { s.setTransfer k { t with download } with channel := s.channel.send value }
      k t download [value] :=
  ⟨Function.update_self .., fun _ hj => Function.update_of_ne hj .., rfl, rfl, rfl, rfl, rfl⟩

/-- A run of the handler. -/
def Plays (s : ReceiveView) (k : Nat) (t : Transfer) (download : DownloadPhase)
    (values : List Published) : Prop :=
  ∃ as s', machine.exec s as = some s' ∧ Played s s' k t download values

theorem Plays.cons {a : Action} {download download' : DownloadPhase}
    {values values' : List Published} (hst : s.step a = some s')
    (h : Played s s' k t download values)
    (hrest : Plays s' k { t with download } download' values') :
    Plays s k t download' (values ++ values') := by
  obtain ⟨as, s'', hrun, hplayed⟩ := hrest
  exact ⟨a :: as, s'', (Machine.exec_cons_of_step hst as).trans hrun, h.trans hplayed⟩

theorem Plays.fail (ht : s.transfers k = some t)
    (hphase : t.download = .streaming ∨ t.download = .reporting) : Plays s k t .failed [] := by
  have hst : s.step (.fail k) = some (s.setTransfer k { t with download := .failed }) := by
    rcases hphase with h | h <;> simp [step, stepHandler, ht, h]
  exact ⟨[.fail k], _, Machine.exec_cons_of_step hst [], .set s k t .failed⟩

/-- The values of the loop. -/
def reports (k : Nat) (values : List UInt64) : List Published :=
  values.map fun bytes => { bytes, transfer := some k }

/-- `send_progress` has published its value when it writes, and may fail then. -/
theorem sendProgress_watched (bytes : UInt64) {r : Receiving} (hwatched : r.watched = true) :
    ∃ r', r'.progress = r.progress ++ [bytes] ∧ r'.watched = true ∧
      ((sendProgress bytes).run r = .ok () r' ∨ ∃ e, (sendProgress bytes).run r = .error e r') := by
  have hpub : (publish bytes).run r = .ok () { r with progress := r.progress ++ [bytes] } := by
    simp [publish, EStateM.run, hwatched]
  rw [sendProgress, EStateM.run_bind, hpub]
  dsimp only
  rw [EStateM.run_bind]
  cases hs : (onSend (DownloadStatus.progress bytes).writeTo).run
      { r with progress := r.progress ++ [bytes] } with
  | ok _ r' =>
    obtain ⟨send, -, rfl⟩ := onSend_ok hs
    exact ⟨{ r with send, progress := r.progress ++ [bytes], reported := r.reported ++ [bytes] },
      rfl, hwatched, .inl rfl⟩
  | error e r' =>
    obtain ⟨send, -, rfl⟩ := onSend_error hs
    exact ⟨{ r with send, progress := r.progress ++ [bytes] }, rfl, hwatched, .inr ⟨e, rfl⟩⟩

/-- The loop of `download` is a run of the handler: it is in the loop again, or it has
failed. -/
theorem plays_forwardItems (items : List DownloadProgressItem) (r : Receiving)
    (hwatched : r.watched = true) (ht : s.transfers k = some t) (hphase : t.download = .streaming) :
    ∃ values, (final ((forwardItems items).run r)).progress = r.progress ++ values ∧
      match (forwardItems items).run r with
      | .ok _ _ => Plays s k t .streaming (reports k values)
      | .error _ _ => Plays s k t .failed (reports k values) := by
  induction items generalizing s t r with
  | nil =>
    refine ⟨[], (List.append_nil _).symm, ?_⟩
    exact ⟨[], s, rfl, hphase ▸ Played.refl ht⟩
  | cons item items ih =>
    cases item with
    | progress bytes =>
      have hpublish : s.step (.progress k bytes) =
          some { s.setTransfer k { t with download := .reporting } with
            channel := s.channel.send { bytes, transfer := some k } } := by
        simp [step, stepHandler, ht, hphase]
      have hplayed := Played.send s k t .reporting { bytes, transfer := some k }
      obtain ⟨r', hprogress, hwatched', hrun | ⟨e, hrun⟩⟩ := sendProgress_watched bytes hwatched
      · -- the frame is written, and the loop goes on
        have hreport : step { s.setTransfer k { t with download := .reporting } with
            channel := s.channel.send { bytes, transfer := some k } } (.report k) =
              some (setTransfer { s.setTransfer k { t with download := .reporting } with
                channel := s.channel.send { bytes, transfer := some k } } k
                  { t with download := .streaming }) := by
          simp [step, stepHandler, setTransfer]
        have hback := Played.set { s.setTransfer k { t with download := .reporting } with
          channel := s.channel.send { bytes, transfer := some k } } k
            { t with download := .reporting } .streaming
        have hgo : ∀ {download values},
            Plays _ k { t with download := .streaming } download values →
              Plays s k t download ({ bytes, transfer := some k } :: values) :=
          fun h => .cons hpublish hplayed (.cons hreport hback h)
        obtain ⟨values, hvalues, hplays⟩ := ih r' hwatched' hback.transfer rfl
        rw [forwardItems, EStateM.run_bind, hrun]
        refine ⟨bytes :: values, ?_, ?_⟩
        · rw [hvalues, hprogress, List.append_assoc]
          rfl
        · dsimp only
          cases hres : (forwardItems items).run r' with
          | ok _ _ =>
            rw [hres] at hplays
            exact hgo hplays
          | error _ _ =>
            rw [hres] at hplays
            exact hgo hplays
      · refine ⟨[bytes], ?_, ?_⟩
        · rw [forwardItems, EStateM.run_bind, hrun]
          exact hprogress
        · rw [forwardItems, EStateM.run_bind, hrun]
          exact .cons hpublish hplayed (.fail hplayed.transfer (.inr rfl))
    | error e => exact ⟨[], (List.append_nil _).symm, .fail ht (.inl hphase)⟩
    | downloadError => exact ⟨[], (List.append_nil _).symm, .fail ht (.inl hphase)⟩
    | other => exact ih r hwatched ht hphase

theorem Plays.trans {download download' : DownloadPhase} {values values' : List Published}
    (h : Plays s k t download values)
    (hrest : ∀ s', Played s s' k t download values →
      Plays s' k { t with download } download' values') :
    Plays s k t download' (values ++ values') := by
  obtain ⟨as, s', hrun, hplayed⟩ := h
  obtain ⟨as', s'', hrun', hplayed'⟩ := hrest s' hplayed
  refine ⟨as ++ as', s'', ?_, hplayed.trans hplayed'⟩
  rw [Machine.exec_append, hrun]
  exact hrun'

/-- The computation asks, and changes nothing. -/
def Asks {α : Type} (x : EStateM String Receiving α) : Prop :=
  ∀ r, (∃ a, x.run r = .ok a r) ∨ ∃ e, x.run r = .error e r

theorem asks_ask {α : Type} (answer : Except String α) : Asks (ask answer) := by
  intro r
  cases answer with
  | ok a => exact .inl ⟨a, rfl⟩
  | error e => exact .inr ⟨e, rfl⟩

theorem asks_orThrow {α : Type} (msg : String) (o : Option α) : Asks (orThrow msg o) := by
  intro r
  cases o with
  | some a => exact .inl ⟨a, rfl⟩
  | none => exact .inr ⟨msg, rfl⟩

theorem asks_context {α : Type} (msg : String) {x : EStateM String Receiving α} (hx : Asks x) :
    Asks (context msg x) := by
  intro r
  rcases hx r with ⟨a, ha⟩ | ⟨e, he⟩
  · exact .inl ⟨a, by simp only [EStateM.run, context] at ha ⊢; rw [ha]⟩
  · exact .inr ⟨msg, by simp only [EStateM.run, context] at he ⊢; rw [he]⟩

/-- What holds of each error and of each continuation holds after a question. -/
theorem Asks.bind {α β : Type} {x : EStateM String Receiving α} (hx : Asks x)
    {f : α → EStateM String Receiving β} {r : Receiving}
    {P : EStateM.Result String Receiving β → Prop} (herror : ∀ e, P (.error e r))
    (hok : ∀ a, P ((f a).run r)) : P ((x >>= f).run r) := by
  rw [EStateM.run_bind]
  rcases hx r with ⟨a, ha⟩ | ⟨e, he⟩
  · rw [ha]
    exact hok a
  · rw [he]
    exact herror e

/-- The handler has done what `download` has, from `r` on. -/
def Follows (s : ReceiveView) (k : Nat) (t : Transfer) (size : UInt64) (r : Receiving) :
    EStateM.Result String Receiving Unit → Prop
  | .ok _ r' => ∃ values, r'.progress = r.progress ++ values ++ [size] ∧
      Plays s k t .finished
        (reports k values ++ [{ bytes := size, transfer := some k, final := true }])
  | .error _ r' => ∃ values, r'.progress = r.progress ++ values ∧
      Plays s k t .failed (reports k values)

/-- The export and what comes after it. -/
theorem plays_export (hphase : t.download = .streaming) (ht : s.transfers k = some t)
    {size : UInt64} (hsize : t.offer.filesize = size) :
    Plays s k t .finished [{ bytes := size, transfer := some k, final := true }] := by
  have hexport : s.step (.exportFile k) =
      some (s.setTransfer k { t with download := .exported }) := by
    simp [step, stepHandler, ht, hphase]
  have hfinish : (s.setTransfer k { t with download := .exported }).step (.finish k) =
      some { (s.setTransfer k { t with download := .exported }).setTransfer k
          { t with download := .finished } with
        channel := s.channel.send { bytes := size, transfer := some k, final := true } } := by
    simp [step, stepHandler, setTransfer, hsize]
  have hplayed := Played.send (s.setTransfer k { t with download := .exported }) k
    { t with download := .exported } .finished { bytes := size, transfer := some k, final := true }
  exact .cons hexport (.set s k t .exported)
    ⟨[.finish k], _, Machine.exec_cons_of_step hfinish [], hplayed⟩

/-- **Every execution of `download` is a run of the handler.**  It publishes the values that
`download` does, and ends finished if `download` returns, with the size of the offer as the
final value, and failed if it does not. -/
theorem plays_download (host : Host) (dir : String) (offer : Offer) (r : Receiving)
    (hwatched : r.watched = true) (ht : s.transfers k = some t) (hphase : t.download = .streaming)
    (hsize : t.offer.filesize = offer.filesize) :
    Follows s k t offer.filesize r ((download host dir offer).run r) := by
  have hfail : ∀ e, Follows s k t offer.filesize r (.error e r) := fun e =>
    ⟨[], (List.append_nil _).symm, .fail ht (.inl hphase)⟩
  rw [download]
  refine (asks_orThrow _ _).bind hfail fun filename => ?_
  refine (asks_ask _).bind hfail fun there => ?_
  split
  · exact hfail _
  refine (asks_ask _).bind hfail fun _ => ?_
  refine (asks_context _ (asks_ask _)).bind hfail fun items => ?_
  obtain ⟨values, hvalues, hplays⟩ := plays_forwardItems items r hwatched ht hphase
  rw [EStateM.run_bind]
  cases hres : (forwardItems items).run r with
  | error e r' =>
    rw [hres] at hvalues hplays
    exact ⟨values, hvalues, hplays⟩
  | ok _ r' =>
    rw [hres] at hvalues hplays
    refine (asks_context _ (asks_ask _)).bind (fun e => ⟨values, hvalues, ?_⟩) fun _ => ?_
    · have hfailed := hplays.trans fun s' hplayed => .fail hplayed.transfer (.inl rfl)
      rwa [List.append_nil] at hfailed
    · refine ⟨values, ?_, hplays.trans fun s' hplayed => ?_⟩
      · exact congrArg (· ++ [offer.filesize]) hvalues
      · exact plays_export rfl hplayed.transfer hsize

end ReceiveView
end IrohShare
