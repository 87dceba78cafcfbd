import IrohShare.SendLock
import IrohShare.SendOwn

/-!
# The page's own guards

`sendSelected` does not begin while `state.transfer` is sending, the back button does
nothing then, and the list of peers is not on the page while a peer is selected.  So a
call that has made its record keeps it in `state.transfer` until its response has been
processed, whatever the user clicks and however often files are dropped, unless

* a `peers` event comes without the selected peer, or a ticket is used, while a
  transfer is sending: both set `state.transfer` to `null`;
* a call passes the guard while another one is still in `materializeFile`: the record
  that the guard would see has not been made.

Two more writes do not ask whose record they meet: the `catch` of a call that
`materializeFile` has rejected, which finds the record of an earlier transfer when that
is still on the page, and the listeners of events that come when their own call is over.

A run without these five steps is `Undisturbed`.  The invariant is `Orderly`: one call at
a time is behind the guard, and `state.transfer` is the record of the one that is in
`send_file`.  With it no step of such a run is misplaced, and the records are the calls'
own.
-/
namespace IrohShare
open Transition

/-- The call waits for `send_file`. -/
def SendCall.sends : SendCall → Bool
  | sending => true
  | _ => false

/-- The call is behind the guard of `sendSelected`, and not over. -/
def SendCall.begun : SendCall → Bool
  | materializing | sending => true
  | _ => false

theorem SendCall.sends_eq_true {call : SendCall} : call.sends = true ↔ call = .sending := by
  cases call <;> simp [sends]

namespace SendPage

/-! ## What a run avoids -/

/-- The selected peer was picked from the list, and is not on the new one. -/
def leaves (s : SendPage) (payload : List Peer) : Bool :=
  s.selectedPeer.any fun selected =>
    !selected.manual && !payload.any (fun peer => peer.id = selected.peer.id)

/-- The call of the event is over, and the record of another call is on the page, which
`send-progress` writes to only if it is sending. -/
def late (s : SendPage) (event : SendEvent) : Bool :=
  !(s.calls event.source).sends && s.transfer.any (fun r => r.call ≠ event.source) &&
    match event.payload with
    | .started .. => true
    | .progress _ => s.sending

/-- A step that takes `state.transfer` from the call that is sending, or that writes to it
for a call that has no record there: one that `materializeFile` has rejected, or one that
is over. -/
def disturbs (s : SendPage) : Action → Bool
  | .peers payload => s.sending && s.leaves payload
  | .useTicket _ => s.sending
  | .materialize _ (.error _) => s.transfer.isSome
  | .deliver => s.events.head?.any s.late
  | _ => false

/-- A call passes the guard of `sendSelected` while another one is in `materializeFile`. -/
def Overlaps (s : SendPage) : Action → Prop
  | .sendSelected _ =>
    s.selectedPeer.isSome = true ∧ s.sending = false ∧ ∃ j, s.calls j = .materializing
  | _ => False

/-- A step of a run that leaves `state.transfer` to one call after the other. -/
def Undisturbed (s : SendPage) (a : Action) : Prop := s.disturbs a = false ∧ ¬ s.Overlaps a

/-! ## One call at a time -/

/-- One call at a time is behind the guard; and while it waits for `send_file`, its record
is the one on the page and a peer is selected. -/
structure Orderly (s : SendPage) : Prop where
  alone : ∀ j k, (s.calls j).begun = true → (s.calls k).begun = true → j = k
  holds : ∀ k, s.calls k = .sending →
    s.transfer = some ⟨k, false⟩ ∧ s.selectedPeer.isSome = true

variable {typeError : String → String} {s s' : SendPage} {a : Action} {k : Nat}

/-- The guards see a call that is in `send_file`. -/
theorem Orderly.sending (ho : s.Orderly) (h : s.Sound) (hk : s.calls k = .sending) :
    s.sending = true := by
  obtain ⟨record, hrecord, hstatus⟩ := h.sending k hk
  simp [SendPage.sending, (ho.holds k hk).1, hrecord, hstatus]

theorem Orderly.idle (ho : s.Orderly) (h : s.Sound) (hidle : s.sending = false) (k : Nat) :
    s.calls k ≠ .sending := by
  intro hk
  rw [ho.sending h hk] at hidle
  cases hidle

/-- Nobody else is behind the guard. -/
theorem Orderly.other (ho : s.Orderly) (hk : (s.calls k).begun = true) {j : Nat} (hj : j ≠ k) :
    (s.calls j).begun = false := by
  rw [← Bool.not_eq_true]
  exact fun hbegun => hj (ho.alone j k hbegun hk)

/-- The steps that leave the calls and the references of the page alone. -/
theorem Orderly.same (ho : s.Orderly) (hcalls : s'.calls = s.calls)
    (htransfer : s'.transfer = s.transfer) (hpeer : s'.selectedPeer = s.selectedPeer) :
    s'.Orderly := by
  refine ⟨?_, ?_⟩
  · rw [hcalls]
    exact ho.alone
  · rw [hcalls, htransfer, hpeer]
    exact ho.holds

/-- What the user clicks, and the list of peers, while nothing is in `send_file`. -/
theorem Orderly.of_idle (ho : s.Orderly) (hcalls : s'.calls = s.calls)
    (hidle : ∀ k, s.calls k ≠ .sending) : s'.Orderly := by
  refine ⟨?_, fun k hk => ?_⟩
  · rw [hcalls]
    exact ho.alone
  · rw [hcalls] at hk
    exact absurd hk (hidle k)

/-- A call that was behind the guard goes on or is over. -/
theorem Orderly.update (ho : s.Orderly) {call : SendCall} (hk : (s.calls k).begun = true)
    (hcalls : s'.calls = Function.update s.calls k call)
    (hholds : call = .sending →
      s'.transfer = some ⟨k, false⟩ ∧ s'.selectedPeer.isSome = true) : s'.Orderly := by
  have hself : ∀ j, (s'.calls j).begun = true → j = k := by
    intro j hj
    by_contra hne
    rw [hcalls, Function.update_of_ne hne, ho.other hk hne] at hj
    cases hj
  refine ⟨fun i j hi hj => (hself i hi).trans (hself j hj).symm, fun j hj => ?_⟩
  obtain rfl := hself j (by rw [hj]; rfl)
  rw [hcalls, Function.update_self] at hj
  exact hholds hj

/-- A call passes the guard when nobody is behind it. -/
theorem Orderly.called (ho : s.Orderly) (h : s.Sound) (hk : s.calls k = .none)
    (hclear : ¬ s.Overlaps (.sendSelected k)) :
    (s.setCall k (if s.selectedPeer.isNone || s.sending then .returned
      else .materializing)).Orderly := by
  have hsame : ∀ j, j ≠ k → ∀ call, (s.setCall k call).calls j = s.calls j :=
    fun j hj call => setCall_of_ne hj call
  split
  · -- turned away
    refine ⟨fun i j hi hj => ?_, fun j hj => ?_⟩
    · have hself : ∀ j, ((s.setCall k .returned).calls j).begun = true →
          (s.calls j).begun = true := by
        intro j hj
        by_cases hjk : j = k
        · rw [hjk, setCall_self] at hj
          cases hj
        · rwa [hsame j hjk] at hj
      exact ho.alone i j (hself i hi) (hself j hj)
    · by_cases hjk : j = k
      · rw [hjk, setCall_self] at hj
        cases hj
      · rw [hsame j hjk] at hj
        exact ho.holds j hj
  · rename_i hguard
    rw [Bool.or_eq_true, not_or, Bool.not_eq_true, Bool.not_eq_true] at hguard
    obtain ⟨hpeer, hidle⟩ := hguard
    have hpeer : s.selectedPeer.isSome = true := by
      rw [← Option.not_isNone, hpeer]
      rfl
    have hnobody : ∀ j, (s.calls j).begun = false := by
      intro j
      cases hj : s.calls j with
      | materializing => exact absurd ⟨hpeer, hidle, j, hj⟩ hclear
      | sending => exact absurd hj (ho.idle h hidle j)
      | none | returned | finished => rfl
    have hself : ∀ j, ((s.setCall k .materializing).calls j).begun = true → j = k := by
      intro j hj
      by_contra hne
      rw [hsame j hne, hnobody j] at hj
      cases hj
    refine ⟨fun i j hi hj => (hself i hi).trans (hself j hj).symm, fun j hj => ?_⟩
    obtain rfl := hself j (by rw [hj]; rfl)
    rw [setCall_self] at hj
    cases hj

theorem Orderly.peers (ho : s.Orderly) (h : s.Sound) {payload : List Peer}
    (hquiet : s.disturbs (.peers payload) = false) : (s.onPeers payload).Orderly := by
  unfold onPeers
  split
  · rename_i selected hselected
    split
    · rename_i hleaves
      have hidle : s.sending = false := by
        simpa [disturbs, leaves, hselected, hleaves] using hquiet
      exact ho.of_idle rfl (ho.idle h hidle)
    · exact ho
  · exact ho

/-- **The invariant of the guards** is kept by every step of an undisturbed run. -/
theorem Orderly.step (ho : s.Orderly) (h : s.Sound) (ha : s.Undisturbed a)
    (hst : s.step typeError a = some s') : s'.Orderly := by
  cases a with
  | sendSelected k =>
    simp only [SendPage.step] at hst
    split at hst <;> cases hst
    exact ho.called h ‹_› ha.2
  | materialize k selected =>
    simp only [SendPage.step] at hst
    split at hst <;> cases hst
    rename_i hk
    have hbegun : (s.calls k).begun = true := by rw [hk]; rfl
    obtain ⟨peer, filename, hpeer, -, heq⟩ | ⟨-, -, -, error, hcalls⟩ :=
      materialized_spec typeError s k selected
    · rw [heq]
      refine ho.update hbegun rfl (fun _ => ⟨rfl, ?_⟩)
      show s.selectedPeer.isSome = true
      rw [hpeer]
      rfl
    · exact ho.update hbegun hcalls (fun hfinished => by cases hfinished)
  | settle k =>
    simp only [SendPage.step] at hst
    split at hst <;> cases hst
    rename_i hk _
    obtain ⟨-, -, result, hcalls⟩ := settled_spec typeError s k _
    exact ho.update (by rw [hk]; rfl) hcalls (fun hfinished => by cases hfinished)
  | peers payload =>
    cases hst
    exact ho.peers h ha.1
  | select peer =>
    -- the list of peers is not on the page while a file is being sent
    simp only [SendPage.step] at hst
    split at hst <;> cases hst
    rename_i hnone
    refine ho.of_idle rfl (fun k hk => ?_)
    rw [← Option.not_isSome, (ho.holds k hk).2] at hnone
    cases hnone
  | useTicket peer =>
    cases hst
    exact ho.of_idle rfl (ho.idle h ha.1)
  | back =>
    simp only [SendPage.step] at hst
    split at hst <;> cases hst
    · exact ho
    · rename_i hidle
      exact ho.of_idle rfl (ho.idle h (by simpa using hidle))
  | another =>
    simp only [SendPage.step] at hst
    split at hst <;> cases hst
    rename_i hguard
    rw [Bool.and_eq_true, Bool.not_eq_true'] at hguard
    exact ho.of_idle rfl (ho.idle h hguard.2)
  | deliver =>
    simp only [SendPage.step] at hst
    split at hst <;> cases hst
    exact ho.same (listen_executions _).2.2 (transfer_of_listen _) (listen_selectedPeer _)
  | lock k | fail k error | start k filename total | send k a =>
    obtain ⟨execution, -, hst⟩ := Option.bind_eq_some_iff.mp hst
    obtain ⟨execution', lock, events, rfl, -⟩ := stepExecution_frame hst
    exact ho.same rfl rfl rfl

/-- A step of an undisturbed run writes to the record of its own call. -/
theorem Orderly.placed (ho : s.Orderly) (ha : s.Undisturbed a)
    (hst : s.step typeError a = some s') : s.Placed a := by
  cases a with
  | materialize k selected =>
    cases selected with
    | ok filename => rfl
    | error error =>
      have hnone : s.transfer = none := by simpa [disturbs] using ha.1
      simp [Placed, misplaces, clear, hnone]
  | settle k =>
    simp only [SendPage.step] at hst
    split at hst <;> cases hst
    rename_i hk hresult
    have htransfer := (ho.holds k hk).1
    simp only [Placed, misplaces, hresult, clear, htransfer]
    split <;> simp
  | deliver =>
    simp only [SendPage.step] at hst
    split at hst <;> cases hst
    rename_i event events hevents
    obtain ⟨source, payload⟩ := event
    have hlate : s.late ⟨source, payload⟩ = false := by simpa [disturbs, hevents] using ha.1
    by_cases hk : s.calls source = .sending
    · -- its own call waits, with its record on the page
      have hclear : s.clear source = true := by simp [clear, (ho.holds source hk).1]
      cases payload <;> simp [Placed, misplaces, hevents, hclear]
    · have hsends : (s.calls source).sends = false := by
        rw [← Bool.not_eq_true, SendCall.sends_eq_true]
        exact hk
      have hother : (s.transfer.any fun r => r.call ≠ source) = !s.clear source := by
        cases htransfer : s.transfer <;> simp [clear, htransfer]
      rw [late, hsends, hother] at hlate
      cases payload with
      | started filename total => simpa [Placed, misplaces, hevents] using hlate
      | progress progress => simpa [Placed, misplaces, hevents, Bool.and_comm] using hlate
  | _ => rfl

/-! ## Runs -/

/-- Nothing is misplaced in an undisturbed run. -/
theorem orderly (hs : (machine typeError).ReachableBy Undisturbed s) :
    (machine typeError).ReachableBy Placed s ∧ s.Orderly := by
  refine hs.invariant
    (I := fun s => (machine typeError).ReachableBy Placed s ∧ s.Orderly) ?_ ?_
  · rintro s rfl
    exact ⟨.init rfl, ⟨fun _ _ h => (by cases h), fun _ h => (by cases h)⟩⟩
  · rintro s a s' _ ⟨hs, ho⟩ ha hst
    exact ⟨.step hs (ho.placed ha hst) hst, ho.step (reachable_kept hs).1 ha hst⟩

/-- **A send's record shows that send's own result.**  In every run in which no `peers`
event drops the selected peer and no ticket is used while a transfer is sending, no call
passes the guard while another one is in `materializeFile`, and no rejection of
`materializeFile` and no event of a call that is over meets the record of another transfer:
a call whose `send_file` has resolved has left its outcome in its record, a rejection
marks a record of its own call only, and the file, the progress and the size of a record
change with events of its own call only. -/
theorem send_own (hs : (machine typeError).ReachableBy Undisturbed s) (ha : s.Undisturbed a)
    (hst : s.step typeError a = some s') :
    s'.Kept ∧ FailsOwn s s' ∧ ChangesOwn s a s' := by
  obtain ⟨hplaced, ho⟩ := orderly hs
  obtain ⟨h, hkept⟩ := reachable_kept hplaced
  have hturn := SendPage.turn h (ho.placed ha hst) (step_spec hst)
  exact ⟨hkept.turn hturn, hturn.failsOwn, hturn.changesOwn h⟩

/-- A peer on the list. -/
def samplePeer : Peer := { id := "1", name := "anna", ticket := "a" }

/-- Call `k` sends a file of three bytes, and the receiver accepts it. -/
def sendRun (k : Nat) : List Action :=
  [.sendSelected k, .materialize k (.ok "notes.txt"), .lock k, .start k "notes.txt" 3,
    .send k (.answer ⟨1 :: DownloadStatus.progressFrames [3] ++ [3], true⟩)]

/-- The rest of that transfer. -/
def finishRun (k : Nat) : List Action := [.send k .read, .send k .read, .settle k]

/-- The action is not a call of `sendSelected`. -/
def Action.goesOn : Action → Bool
  | .sendSelected _ => false
  | _ => true

theorem not_overlaps (ha : a.goesOn = true) : ¬ s.Overlaps a := by
  cases a <;> first | exact id | cases ha

/-- Between two calls of `sendSelected` nothing overlaps. -/
theorem meets_undisturbed (as : List Action) (has : as.all Action.goesOn = true)
    (hmeets : (machine typeError).Meets (fun s a => s.disturbs a = false) s as) :
    (machine typeError).Meets Undisturbed s as := by
  induction as generalizing s with
  | nil => trivial
  | cons a as ih =>
    rw [List.all_cons, Bool.and_eq_true] at has
    exact ⟨⟨hmeets.1, not_overlaps has.1⟩, fun s' hst => ih has.2 (hmeets.2 s' hst)⟩

/-- A file without a name is rejected, and the next one is sent. -/
def retryRun : List Action :=
  [.select samplePeer, .sendSelected 0, .materialize 0 (.error "The selected file has no name"),
    .another, .sendSelected 1, .materialize 1 (.ok "notes.txt")]

/-- While it is being sent, a third file is dropped, a list of peers comes that still has the
receiver, and the back button is clicked; its last progress comes after its outcome. -/
def heldRun : List Action :=
  [.peers [samplePeer], .lock 1, .start 1 "notes.txt" 3, .back, .deliver,
    .send 1 (.answer ⟨1 :: DownloadStatus.progressFrames [3] ++ [3], true⟩)] ++ finishRun 1 ++
  [.send 1 .wake, .send 1 .emit]

theorem meets_held :
    (machine id).Meets Undisturbed {} (retryRun ++ .sendSelected 2 :: heldRun) := by
  refine ⟨⟨rfl, id⟩, ?_⟩
  rintro _ ⟨⟩
  refine ⟨⟨rfl, fun ⟨_, _, _, h⟩ => by cases h⟩, ?_⟩
  rintro _ ⟨⟩
  refine ⟨⟨rfl, id⟩, ?_⟩
  rintro _ ⟨⟩
  refine ⟨⟨rfl, id⟩, ?_⟩
  rintro _ ⟨⟩
  refine ⟨⟨rfl, fun ⟨_, _, j, h⟩ => by match j with | 0 | _ + 1 => cases h⟩, ?_⟩
  rintro _ ⟨⟩
  refine ⟨⟨rfl, id⟩, ?_⟩
  rintro _ ⟨⟩
  refine ⟨⟨rfl, fun ⟨_, h, _⟩ => by cases h⟩, ?_⟩
  rintro _ ⟨⟩
  exact meets_undisturbed heldRun rfl (by decide)

theorem send_own_held :
    ∃ s s', (machine id).exec {} (retryRun ++ .sendSelected 2 :: heldRun) = some s ∧
      s.step id .deliver = some s' ∧
      (s'.records ⟨0, true⟩).map SendRecord.status = some .failed ∧
      (s'.records ⟨1, false⟩).map SendRecord.status = some .completed ∧
      s'.Kept ∧ FailsOwn s s' ∧ ChangesOwn s .deliver s' := by
  have hstart : (machine id).ReachableBy Undisturbed {} := .init rfl
  exact ⟨_, _, rfl, rfl, rfl, rfl, send_own (hstart.exec meets_held rfl) ⟨rfl, id⟩ rfl⟩

/-- The receiver leaves the list of peers before it has everything. -/
def vanishedRun : List Action :=
  .select samplePeer :: sendRun 0 ++ [.deliver, .peers []] ++ finishRun 0

/-- The file is sent, and the page says that the transfer failed. -/
theorem vanishedRun_shows_failure :
    ∃ s, (machine id).exec {} vanishedRun = some s ∧ (machine id).Reachable s ∧
      s.calls 0 = .finished (.ok .completed) ∧
      (s.transfer.bind s.records).map SendRecord.status = some .failed ∧ ¬ s.Kept := by
  have hstart : (machine id).Reachable {} := .init rfl
  have hs := hstart.exec (rfl : (machine id).exec {} vanishedRun = some _)
  refine ⟨_, rfl, hs, rfl, rfl, fun hkept => ?_⟩
  obtain ⟨record, hrecord, hstatus⟩ := hkept 0 .completed rfl
  cases hrecord
  cases hstatus

end SendPage
end IrohShare
