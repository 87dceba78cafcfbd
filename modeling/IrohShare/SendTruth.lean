import IrohShare.SendNetwork

/-!
# What the window says of a send

"Transfer complete" is on the screen while a record is shown whose status is `completed`.
In every run some execution of `send_file` has then returned that outcome.  Which one it is
is known if every call writes to its own record (`Placed`); then the file and the machine
that the screen names are those of the execution, too.

What was said once of a call stays true, so that a screen that is not drawn anew when the
state changes is no exception.
-/
namespace IrohShare
open Transition

namespace SendPage
variable {typeError : String → String} {s s' : SendPage} {a : Action}

/-! ## The outcome of a record -/

theorem status_ne_failed (result : SendOutcome) : result.status ≠ .failed := by
  cases result <;> nofun

theorem status_ne_sending (result : SendOutcome) : result.status ≠ .sending := by
  cases result <;> nofun

theorem status_inj {result result' : SendOutcome} (h : result.status = result'.status) :
    result = result' := by
  cases result <;> cases result' <;> first | rfl | cases h

theorem records_of_modify {r r' : RecordId} {f : SendRecord → SendRecord} {record' : SendRecord}
    (h : (s.modify r f).records r' = some record') :
    (r' = r ∧ ∃ record, s.records r = some record ∧ record' = f record) ∨
      s.records r' = some record' := by
  replace h : Function.update s.records r ((s.records r).map f) r' = some record' := h
  by_cases heq : r' = r
  · rw [heq, Function.update_self] at h
    obtain ⟨record, hrecord, rfl⟩ := Option.map_eq_some_iff.mp h
    exact .inl ⟨heq, record, hrecord, rfl⟩
  · exact .inr (by rwa [Function.update_of_ne heq] at h)

/-- What the `catch` writes has failed. -/
theorem records_of_catchError (k : Nat) (error : String) {r : RecordId} {record' : SendRecord}
    (h : (s.catchError k error).records r = some record') :
    (record'.status = .failed ∧ (r = ⟨k, true⟩ ∨
      ∃ record, s.records r = some record ∧ record'.filename = record.filename)) ∨
      s.records r = some record' := by
  unfold catchError at h
  dsimp only at h
  split at h
  · rcases records_of_modify h with ⟨rfl, record, hrecord, rfl⟩ | h
    · exact .inl ⟨rfl, .inr ⟨record, hrecord, rfl⟩⟩
    · exact .inr h
  · rcases update_eq_some h with ⟨rfl, rfl⟩ | ⟨-, h⟩
    · exact .inl ⟨rfl, .inl rfl⟩
    · exact .inr h

/-- A listener writes no status. -/
theorem records_of_listen {payload : SendPayload} {r : RecordId} {record' : SendRecord}
    (h : (s.listen payload).records r = some record') :
    ∃ record, s.records r = some record ∧ record.status = record'.status ∧
      (record.filename = record'.filename ∨ s.transfer = some r ∧
        ∃ total, payload = .started record'.filename total) := by
  unfold listen at h
  split at h
  · exact ⟨record', h, rfl, .inl rfl⟩
  · rename_i r₀ htransfer
    split at h
    · rcases records_of_modify h with ⟨rfl, record, hrecord, rfl⟩ | h
      · exact ⟨record, hrecord, rfl, .inr ⟨htransfer, _, rfl⟩⟩
      · exact ⟨record', h, rfl, .inl rfl⟩
    · split at h
      · rcases records_of_modify h with ⟨rfl, record, hrecord, rfl⟩ | h
        · exact ⟨record, hrecord, rfl, .inl rfl⟩
        · exact ⟨record', h, rfl, .inl rfl⟩
      · exact ⟨record', h, rfl, .inl rfl⟩

/-- A step moves one call at most, one that is not over; it resolves with the outcome of its
execution, and what has begun only ends. -/
theorem calls_step (hst : Step typeError s a s') :
    s'.calls = s.calls ∨ ∃ k call, s'.calls = Function.update s.calls k call ∧
      (∀ result, s.calls k ≠ .finished result) ∧
      (∀ result, call = .finished (.ok result) →
        (s.executions k).bind Execution.result = some (.ok result)) ∧
      (s.calls k = .none ∨ s.calls k = .materializing ∨ ∃ result, call = .finished result) := by
  cases hst with
  | @call k call hk hcall =>
    refine .inr ⟨k, call, rfl, by rw [hk]; nofun, ?_, .inl hk⟩
    rintro result rfl
    rcases hcall with hcall | hcall <;> cases hcall
  | @materialize k selected hk =>
    obtain ⟨peer, filename, -, rfl, hpage⟩ | ⟨-, -, -, error, hcalls⟩ :=
      materialized_spec typeError s k selected
    · exact .inr ⟨k, .sending, by rw [hpage]; rfl, by rw [hk]; nofun, nofun, .inr (.inl hk)⟩
    · exact .inr ⟨k, _, hcalls, by rw [hk]; nofun, nofun, .inr (.inl hk)⟩
  | @settle k result hk hresult =>
    obtain ⟨-, -, result', hcalls⟩ := settled_spec typeError s k result
    have hsame : (settled typeError s k result).calls k = .finished result :=
      settled_calls s k result
    rw [hcalls, Function.update_self] at hsame
    refine .inr ⟨k, _, hcalls, by rw [hk]; nofun, ?_, .inr (.inr ⟨_, rfl⟩)⟩
    rintro outcome houtcome
    rw [hresult, ← SendCall.finished.inj hsame, SendCall.finished.inj houtcome]
  | page | process => exact .inl rfl
  | deliver => exact .inl (listen_executions _).2.2

/-- A call that is past `materializeFile` stays so. -/
theorem begun_kept (hst : Step typeError s a s') {k : Nat}
    (hk : s.calls k ≠ .none ∧ s.calls k ≠ .materializing) :
    s'.calls k ≠ .none ∧ s'.calls k ≠ .materializing := by
  obtain hcalls | ⟨j, call, hcalls, -, -, hcall⟩ := calls_step hst <;> rw [hcalls]
  · exact hk
  · by_cases heq : k = j
    · subst heq
      obtain ⟨result, rfl⟩ := (hcall.resolve_left hk.1).resolve_left hk.2
      rw [Function.update_self]
      exact ⟨nofun, nofun⟩
    · rwa [Function.update_of_ne heq]

theorem finished_kept (hst : Step typeError s a s') {k : Nat} {result : Except String SendOutcome}
    (hk : s.calls k = .finished result) : s'.calls k = .finished result := by
  obtain hcalls | ⟨j, call, hcalls, hopen, -⟩ := calls_step hst
  · rwa [hcalls]
  · have hne : k ≠ j := by
      rintro rfl
      exact hopen result hk
    rwa [hcalls, Function.update_of_ne hne]

/-- What an execution has returned stays. -/
theorem LockStep.result_kept {event : Option LockEvent} (h : LockStep s s' event) {k : Nat}
    {result : Except String SendOutcome}
    (hk : (s.executions k).bind Execution.result = some result) :
    (s'.executions k).bind Execution.result = some result := by
  have hupdate : ∀ {j : Nat} {execution : Execution},
      (∀ result, (s.executions j).bind Execution.result = some result →
        execution.result = some result) →
      s'.executions = Function.update s.executions j (some execution) →
      (s'.executions k).bind Execution.result = some result := by
    intro j execution hsame hexecutions
    rw [hexecutions]
    by_cases heq : k = j
    · subst heq
      rw [Function.update_self]
      exact hsame result hk
    · rwa [Function.update_of_ne heq]
  cases h with
  | still hexecutions => rwa [hexecutions]
  | invoked j hj hexecutions => exact hupdate (by rw [hj]; nofun) hexecutions
  | entered j hj _ hexecutions | turnedAway j _ hj _ hexecutions | failed j _ hj hexecutions
  | started j _ _ hj hexecutions => exact hupdate (by rw [hj]; nofun) hexecutions
  | moved j file file' b event hj hfile hexecutions =>
    refine hupdate (fun result hresult => ?_) hexecutions
    rw [hj] at hresult
    exact result_of_step hfile hresult

/-- What `materializeFile` has led to: the record of the call is sending or has failed. -/
theorem records_of_materialized {k : Nat} {selected : Except String String} {r : RecordId}
    {record' : SendRecord} (h : (materialized typeError s k selected).records r = some record') :
    s.records r = some record' ∨ (∀ result : SendOutcome, record'.status ≠ result.status) ∧
      (r = ⟨k, true⟩ ∨ (∃ record, s.records r = some record ∧
        record'.filename = record.filename) ∨
          r = ⟨k, false⟩ ∧ selected = .ok record'.filename) := by
  unfold materialized at h
  split at h
  · rename_i filename
    dsimp only at h
    split at h
    · rcases update_eq_some h with ⟨rfl, rfl⟩ | ⟨-, h⟩
      · exact .inr ⟨fun result => (status_ne_sending result).symm, .inr (.inr ⟨rfl, rfl⟩)⟩
      · exact .inl h
    · replace h : ((s.create ⟨k, false⟩ { status := .sending, filename }).catchError k
        (typeError "ticket")).records r = some record' := h
      rcases records_of_catchError k _ h with ⟨hfailed, hname⟩ | h
      · refine .inr ⟨fun result => hfailed ▸ (status_ne_failed result).symm, ?_⟩
        rcases hname with rfl | ⟨record, hrecord, hname⟩
        · exact .inl rfl
        · rcases update_eq_some hrecord with ⟨rfl, rfl⟩ | ⟨-, hrecord⟩
          · exact .inr (.inr ⟨rfl, by rw [hname]⟩)
          · exact .inr (.inl ⟨record, hrecord, hname⟩)
      · rcases update_eq_some h with ⟨rfl, rfl⟩ | ⟨-, h⟩
        · exact .inr ⟨fun result => (status_ne_sending result).symm, .inr (.inr ⟨rfl, rfl⟩)⟩
        · exact .inl h
  · rename_i error
    replace h : (s.catchError k error).records r = some record' := h
    rcases records_of_catchError k error h with ⟨hfailed, hname⟩ | h
    · refine .inr ⟨fun result => hfailed ▸ (status_ne_failed result).symm, ?_⟩
      rcases hname with rfl | hname
      · exact .inl rfl
      · exact .inr (.inl hname)
    · exact .inl h

/-- What the response of `send_file` has led to. -/
theorem records_of_settled {k : Nat} {result : Except String SendOutcome} {r : RecordId}
    {record' : SendRecord} (h : (settled typeError s k result).records r = some record') :
    s.records r = some record' ∨
      (record'.status = .failed ∨
        ∃ outcome, result = .ok outcome ∧ record'.status = outcome.status) ∧
        (r = ⟨k, true⟩ ∨ ∃ record, s.records r = some record ∧
          record'.filename = record.filename) := by
  unfold settled at h
  split at h
  · rename_i outcome
    split at h
    · rcases records_of_modify h with ⟨rfl, record, hrecord, rfl⟩ | h
      · exact .inr ⟨.inr ⟨outcome, rfl, rfl⟩, .inr ⟨record, hrecord, rfl⟩⟩
      · exact .inl h
    · exact (records_of_catchError k (typeError "status") h).symm.imp_right
        fun ⟨hfailed, hname⟩ => ⟨.inl hfailed, hname⟩
  · rename_i error
    exact (records_of_catchError k error h).symm.imp_right
      fun ⟨hfailed, hname⟩ => ⟨.inl hfailed, hname⟩

/-- A record that tells of an outcome did so before, or a call has just resolved with it. -/
theorem status_step (hst : Step typeError s a s') {r : RecordId} {record' : SendRecord}
    {result : SendOutcome} (hrecord : s'.records r = some record')
    (hstatus : record'.status = result.status) :
    (∃ record, s.records r = some record ∧ record.status = result.status) ∨
      ∃ k, s'.calls k = .finished (.ok result) := by
  cases hst with
  | call | page | process => exact .inl ⟨record', hrecord, hstatus⟩
  | materialize =>
    rcases records_of_materialized hrecord with h | ⟨hne, -⟩
    · exact .inl ⟨record', h, hstatus⟩
    · exact absurd hstatus (hne result)
  | @settle k settled =>
    rcases records_of_settled hrecord with h | ⟨hfailed | ⟨outcome, rfl, houtcome⟩, -⟩
    · exact .inl ⟨record', h, hstatus⟩
    · exact absurd (hstatus.symm.trans hfailed) (status_ne_failed result)
    · obtain rfl := status_inj (houtcome.symm.trans hstatus)
      exact .inr ⟨k, settled_calls s k _⟩
  | deliver =>
    obtain ⟨record, hold, hsame, -⟩ := records_of_listen hrecord
    exact .inl ⟨record, hold, hsame.trans hstatus⟩

/-- The name in the first record of a call is from `materializeFile` or from an event. -/
theorem filename_step (hst : Step typeError s a s') {k : Nat} {record' : SendRecord}
    (hrecord : s'.records ⟨k, false⟩ = some record') :
    (∃ record, s.records ⟨k, false⟩ = some record ∧ record'.filename = record.filename) ∨
      a = .materialize k (.ok record'.filename) ∨
      ∃ event events total, a = .deliver ∧ s.events = event :: events ∧
        s.transfer = some ⟨k, false⟩ ∧ event.payload = .started record'.filename total := by
  cases hst with
  | call | page | process => exact .inl ⟨record', hrecord, rfl⟩
  | materialize =>
    rcases records_of_materialized hrecord with h | ⟨-, h | h | ⟨hk, rfl⟩⟩
    · exact .inl ⟨record', h, rfl⟩
    · cases h
    · exact .inl h
    · cases hk
      exact .inr (.inl rfl)
  | settle =>
    rcases records_of_settled hrecord with h | ⟨-, h | h⟩
    · exact .inl ⟨record', h, rfl⟩
    · cases h
    · exact .inl h
  | @deliver event events hevents =>
    obtain ⟨record, hold, -, hname | ⟨htransfer, total, hpayload⟩⟩ := records_of_listen hrecord
    · exact .inl ⟨record, hold, hname.symm⟩
    · exact .inr (.inr ⟨event, events, total, rfl, hevents, htransfer, hpayload⟩)

/-- Which outcomes there are: a call has that of its execution, a record that of a call. -/
structure Ended (s : SendPage) : Prop where
  calls : ∀ k result, s.calls k = .finished (.ok result) →
    (s.executions k).bind Execution.result = some (.ok result)
  records : ∀ r record result, s.records r = some record →
    record.status = SendOutcome.status result → ∃ k, s.calls k = .finished (.ok result)

theorem Ended.step (h : s.Ended) (hinvoked : s.Invoked) (hst : s.step typeError a = some s') :
    s'.Ended := by
  have hlock := (lockStep_spec hinvoked hst).1
  have hst := step_spec hst
  refine ⟨fun k result hk => hlock.result_kept ?_, fun r record' result hrecord hstatus => ?_⟩
  · obtain hcalls | ⟨j, call, hcalls, -, hresult, -⟩ := calls_step hst <;> rw [hcalls] at hk
    · exact h.calls k result hk
    · by_cases heq : k = j
      · subst heq
        rw [Function.update_self] at hk
        exact hresult result hk
      · rw [Function.update_of_ne heq] at hk
        exact h.calls k result hk
  · obtain ⟨record, hold, hsame⟩ | hended := status_step hst hrecord hstatus
    · obtain ⟨k, hk⟩ := h.records r record result hold hsame
      exact ⟨k, finished_kept hst hk⟩
    · exact hended

theorem reachable_ended (hs : (machine typeError).Reachable s) : s.Ended := by
  refine hs.invariant (I := Ended) ?_
    (fun s a s' hs h _ hst => h.step (reachable_invoked hs) hst)
  rintro s rfl
  exact ⟨nofun, nofun⟩

/-- A record that tells of an outcome is the first one of a call that has resolved with it. -/
def Own (s : SendPage) : Prop :=
  ∀ r record result, s.records r = some record → record.status = SendOutcome.status result →
    r.fallback = false ∧ s.calls r.call = .finished (.ok result)

theorem Own.turn (h : s.Own) (hturn : Turn s a s') : s'.Own := by
  intro r record result hrecord hstatus
  cases hturn with
  | still hrecords hcalls _ =>
    rw [hcalls]
    exact h r record result (hrecords ▸ hrecord) hstatus
  | called k call hk _ heq =>
    subst heq
    obtain ⟨hfirst, hfinished⟩ := h r record result hrecord hstatus
    have hne : r.call ≠ k := by
      rintro rfl
      rw [hk] at hfinished
      cases hfinished
    exact ⟨hfirst, by rwa [setCall_of_ne hne]⟩
  | heard event events r₀ record₀ record' _ _ _ hcalls _ hrecord₀ hsame _ hrecords =>
    rw [hcalls]
    rcases update_eq_some (hrecords ▸ hrecord) with ⟨rfl, rfl⟩ | ⟨-, hold⟩
    · exact h r record₀ result hrecord₀ (hsame.symm.trans hstatus)
    · exact h r record result hold hstatus
  | wrote k r₀ record' hr₀ hcalls _ hrecords hwritten =>
    rcases update_eq_some (hrecords ▸ hrecord) with ⟨rfl, rfl⟩ | ⟨-, hold⟩
    · cases hwritten with
      | begun _ _ _ hsending =>
        exact absurd (hstatus.symm.trans hsending) (status_ne_sending result)
      | resolved outcome before _ hfinished hfirst _ hmarked =>
        subst hmarked
        obtain rfl := status_inj hstatus
        exact ⟨by rw [hfirst], by rw [hr₀]; exact hfinished⟩
      | rejected _ _ _ hfailed =>
        exact absurd (hstatus.symm.trans hfailed) (status_ne_failed result)
    · obtain ⟨hfirst, hfinished⟩ := h r record result hold hstatus
      refine ⟨hfirst, ?_⟩
      -- the call that has written was not over
      have hne : r.call ≠ k := by
        rintro rfl
        cases hwritten with
        | begun hk | resolved _ _ hk =>
          rw [hfinished] at hk
          cases hk
        | rejected _ hk => rcases hk with hk | hk <;> rw [hfinished] at hk <;> cases hk
      rwa [hcalls _ hne]

/-! ## The events on their way -/

theorem events_of_catchError (k : Nat) (error : String) :
    (s.catchError k error).events = s.events := by
  unfold catchError
  dsimp only
  split <;> rfl

theorem events_of_listen (payload : SendPayload) : (s.listen payload).events = s.events := by
  unfold listen
  split
  · rfl
  · split
    · rfl
    · split <;> rfl

theorem events_of_settled (k : Nat) (result : Except String SendOutcome) :
    (settled typeError s k result).events = s.events := by
  unfold settled
  split
  · split
    · rfl
    · exact events_of_catchError k _
  · exact events_of_catchError k _

theorem events_of_materialized (k : Nat) (selected : Except String String) :
    (materialized typeError s k selected).events = s.events := by
  unfold materialized
  split
  · dsimp only
    split
    · rfl
    · exact events_of_catchError k _
  · exact events_of_catchError k _

/-- An event was on its way, or its execution has just begun or made progress. -/
theorem events_step (hst : s.step typeError a = some s') {event : SendEvent}
    (h : event ∈ s'.events) : event ∈ s.events ∨
      (∃ k filename total, a = .start k filename total ∧ event = ⟨k, .started filename total⟩) ∨
      ∃ progress, event.payload = .progress progress := by
  have hsame : s'.events = s.events → event ∈ s.events := fun heq => heq ▸ h
  cases a with
  | sendSelected | select | another =>
    simp only [step] at hst
    split at hst <;> cases hst
    exact .inl h
  | useTicket =>
    cases hst
    exact .inl h
  | back =>
    simp only [step] at hst
    split at hst <;> cases hst <;> exact .inl h
  | peers payload =>
    cases hst
    refine .inl (hsame ?_)
    unfold onPeers
    split
    · split <;> rfl
    · rfl
  | materialize k selected =>
    simp only [step] at hst
    split at hst <;> cases hst
    exact .inl (hsame (events_of_materialized k selected))
  | settle k =>
    simp only [step] at hst
    split at hst <;> cases hst
    exact .inl (hsame (events_of_settled k _))
  | deliver =>
    simp only [step] at hst
    split at hst <;> cases hst
    rename_i head events hevents
    rw [events_of_listen] at h
    exact .inl (hevents ▸ List.mem_cons_of_mem _ h)
  | lock | fail =>
    obtain ⟨execution, -, hst⟩ := Option.bind_eq_some_iff.mp hst
    simp only [stepExecution] at hst
    split at hst <;> cases hst <;> exact .inl h
  | start k filename total =>
    obtain ⟨execution, -, hst⟩ := Option.bind_eq_some_iff.mp hst
    simp only [stepExecution] at hst
    split at hst <;> cases hst
    rcases List.mem_append.mp h with h | h
    · exact .inl h
    · exact .inr (.inl ⟨k, filename, total, rfl, List.mem_singleton.mp h⟩)
  | send k b =>
    obtain ⟨execution, -, hst⟩ := Option.bind_eq_some_iff.mp hst
    simp only [stepExecution] at hst
    split at hst
    · obtain ⟨file', -, rfl⟩ := Option.map_eq_some_iff.mp hst
      rcases List.mem_append.mp h with h | h
      · exact .inl h
      · obtain ⟨progress, -, rfl⟩ := List.mem_map.mp h
        exact .inr (.inr ⟨progress, rfl⟩)
    · cases hst

/-! ## What `state.transfer` refers to -/

theorem transfer_of_catchError (k : Nat) (error : String) {j : Nat}
    (h : (s.catchError k error).transfer = some ⟨j, false⟩) : s.transfer = some ⟨j, false⟩ := by
  unfold catchError at h
  dsimp only at h
  split at h
  · exact h
  · cases h

theorem transfer_of_settled {k j : Nat} {result : Except String SendOutcome}
    (h : (settled typeError s k result).transfer = some ⟨j, false⟩) :
    s.transfer = some ⟨j, false⟩ := by
  unfold settled at h
  split at h
  · split at h
    · exact h
    · exact transfer_of_catchError k (typeError "status") h
  · rename_i error
    exact transfer_of_catchError k error h

theorem transfer_of_materialized {k j : Nat} {selected : Except String String}
    (h : (materialized typeError s k selected).transfer = some ⟨j, false⟩) :
    j = k ∨ s.transfer = some ⟨j, false⟩ := by
  unfold materialized at h
  split at h
  · rename_i filename
    have hcreate : (s.create ⟨k, false⟩ { status := .sending, filename }).transfer =
        some ⟨j, false⟩ := by
      dsimp only at h
      split at h
      · exact h
      · exact transfer_of_catchError k (typeError "ticket") h
    cases hcreate
    exact .inl rfl
  · rename_i error
    exact .inr (transfer_of_catchError k error h)

theorem transfer_of_onPeers {j : Nat} {payload : List Peer}
    (h : (s.onPeers payload).transfer = some ⟨j, false⟩) :
    s.transfer = some ⟨j, false⟩ ∧ (s.onPeers payload).selectedPeer = s.selectedPeer := by
  unfold onPeers at h ⊢
  split at h
  · split at h
    · cases h
    · exact ⟨h, by split <;> first | rfl | contradiction⟩
  · exact ⟨h, rfl⟩

theorem reachable_own (hs : (machine typeError).ReachableBy Placed s) : s.Own := by
  refine hs.invariant (I := Own) ?_ ?_
  · rintro s rfl
    nofun
  · intro s a s' hs h hplaced hst
    exact h.turn (SendPage.turn (reachable_kept hs).1 hplaced (step_spec hst))

end SendPage

namespace SendWindow
variable {text : PeerText} {decode : String → Option EndpointAddr} {device : Device}
  {typeError : String → String} {s s' : SendWindow} {a : Action}

/-! ## The peer in the header -/

/-- A call that has not sent has no invocation, and as long as `state.transfer` refers to
the record of a call that has, the peer it sends to is selected. -/
structure Headed (s : SendWindow) : Prop where
  fresh : ∀ k, s.page.calls k = .none ∨ s.page.calls k = .materializing → s.invocations k = none
  peer : ∀ k invocation, s.page.transfer = some ⟨k, false⟩ → s.invocations k = some invocation →
    ∃ selected, s.page.selectedPeer = some selected ∧
      invocation.targetTicket = selected.peer.ticket

/-- A step after which a call whose record is on the page was there before, with its peer. -/
theorem Headed.same (h : s.Headed)
    (hcalls : ∀ k, s'.page.calls k = .none ∨ s'.page.calls k = .materializing →
      s.page.calls k = .none ∨ s.page.calls k = .materializing)
    (htransfer : ∀ k, (s.invocations k).isSome = true → s'.page.transfer = some ⟨k, false⟩ →
      s.page.transfer = some ⟨k, false⟩ ∧ s'.page.selectedPeer = s.page.selectedPeer)
    (hinvocations : s'.invocations = s.invocations) : s'.Headed := by
  refine ⟨fun k hk => hinvocations ▸ h.fresh k (hcalls k hk), fun k invocation hk hinvocation => ?_⟩
  rw [hinvocations] at hinvocation
  obtain ⟨htransfer, hpeer⟩ := htransfer k (by rw [hinvocation]; rfl) hk
  rw [hpeer]
  exact h.peer k invocation htransfer hinvocation

/-- A call that is over. -/
theorem Headed.finished (h : s.Headed) {k : Nat} {result : Except String SendOutcome}
    (hcalls : s'.page.calls = Function.update s.page.calls k (.finished result))
    (htransfer : ∀ j, (s.invocations j).isSome = true → s'.page.transfer = some ⟨j, false⟩ →
      s.page.transfer = some ⟨j, false⟩)
    (hpeer : s'.page.selectedPeer = s.page.selectedPeer)
    (hinvocations : s'.invocations = s.invocations) : s'.Headed := by
  refine h.same (fun j hj => ?_) (fun j hj htransfer' => ⟨htransfer j hj htransfer', hpeer⟩)
    hinvocations
  rw [hcalls] at hj
  by_cases heq : j = k
  · rw [heq, Function.update_self] at hj
    rcases hj with hj | hj <;> cases hj
  · rwa [Function.update_of_ne heq] at hj

theorem Headed.step (h : s.Headed) (hst : Step text decode device typeError s a s') :
    s'.Headed := by
  cases hst with
  | watch | listen | readPeers | start | idle | mkdir | removed | receive =>
    exact h.same (fun _ => id) (fun _ _ hk => ⟨hk, rfl⟩) rfl
  | select | useTicket | leave => exact h.same (fun _ => id) nofun rfl
  | @choose k path call hk =>
    refine h.same (fun j hj => ?_) (fun _ _ hk => ⟨hk, rfl⟩) rfl
    by_cases heq : j = k
    · exact .inl (heq ▸ hk)
    · rwa [show (s.page.setCall k call).calls j = s.page.calls j from
        SendPage.setCall_of_ne heq _] at hj
  | @deliverPeers payload =>
    obtain ⟨-, -, hcalls⟩ := SendPage.onPeers_spec (s := s.page) payload
    exact h.same (fun j hj => hcalls ▸ hj) (fun j _ hj => SendPage.transfer_of_onPeers hj) rfl
  | @deliver event events =>
    obtain ⟨-, -, hcalls⟩ := SendPage.listen_executions (s := { s.page with events }) event.payload
    refine h.same (fun j hj => hcalls ▸ hj) (fun j _ hj => ⟨?_, ?_⟩) rfl
    · exact (SendPage.transfer_of_listen (s := { s.page with events }) event.payload).symm.trans hj
    · exact SendPage.listen_selectedPeer (s := { s.page with events }) event.payload
  | process ha hpage =>
    obtain ⟨k, execution, execution', lock, events, -, rfl, -⟩ := SendPage.process_spec ha hpage
    exact h.same (fun _ => id) (fun _ _ hk => ⟨hk, rfl⟩) rfl
  | @settle k result =>
    obtain ⟨hpeer, -, result', hcalls⟩ := SendPage.settled_spec typeError s.page k result
    refine h.finished ((congrArg SendPage.calls (page_cleanUp _ k)).trans hcalls)
      (fun j _ hj => ?_) ?_ (invocations_cleanUp _ _)
    · rw [page_cleanUp] at hj
      exact SendPage.transfer_of_settled hj
    · rw [page_cleanUp]
      exact hpeer
  | @materialize _ k selected staging hcall =>
    obtain ⟨peer, filename, hpeer, rfl, hpage⟩ | ⟨-, hpeer, -, error, hcalls⟩ :=
      SendPage.materialized_spec typeError s.page k selected
    · have hsent :
          (SendPage.materialized typeError s.page k (.ok filename)).calls k = .sending := by
        rw [hpage]
        exact SendPage.setCall_self ..
      have hselected : (SendPage.materialized typeError s.page k (.ok filename)).selectedPeer =
          some peer := by
        rw [hpage]
        exact hpeer
      rw [materialized_sent hsent hselected]
      refine ⟨fun j hj => ?_, fun j invocation hj hinvocation => ⟨peer, hselected, ?_⟩⟩
      · have hne : j ≠ k := by
          rintro rfl
          rw [show (SendPage.materialized typeError s.page j (.ok filename)).calls j = .sending
            from hsent] at hj
          rcases hj with hj | hj <;> cases hj
        refine (Function.update_of_ne hne ..).trans (h.fresh j ?_)
        replace hj : (SendPage.materialized typeError s.page k (.ok filename)).calls j = .none ∨
          (SendPage.materialized typeError s.page k (.ok filename)).calls j = .materializing := hj
        rw [hpage] at hj
        simpa [SendPage.setExecution, SendPage.setCall, SendPage.create, hne] using hj
      · obtain rfl : j = k := by
          replace hj : (SendPage.materialized typeError s.page k (.ok filename)).transfer =
            some ⟨j, false⟩ := hj
          rw [hpage] at hj
          cases hj
          rfl
        replace hinvocation : Function.update s.invocations j _ j = some invocation := hinvocation
        rw [Function.update_self] at hinvocation
        cases hinvocation
        rfl
    · have hended : (SendPage.materialized typeError s.page k selected).calls k ≠ .sending := by
        rw [hcalls, Function.update_self]
        exact SendPage.finished_ne_sending _
      have hinvocations : ((s.setStaging k staging).materialized k selected
          (SendPage.materialized typeError s.page k selected)).invocations = s.invocations := by
        obtain ⟨-, heq⟩ | ⟨filename, -, heq⟩ :=
            materialized_over (s.setStaging k staging) selected hended <;>
          rw [heq, invocations_cleanUp] <;> rfl
      have hpage := page_materialized (s.setStaging k staging) k selected
        (SendPage.materialized typeError s.page k selected)
      refine h.finished ((congrArg SendPage.calls hpage).trans hcalls) (fun j hj htransfer => ?_)
        ((congrArg SendPage.selectedPeer hpage).trans hpeer) hinvocations
      rw [hpage] at htransfer
      refine (SendPage.transfer_of_materialized htransfer).resolve_left ?_
      rintro rfl
      rw [h.fresh j (.inr hcall)] at hj
      cases hj

theorem reachable_headed (hs : (machine text decode device typeError).Reachable s) : s.Headed := by
  refine hs.invariant (I := Headed) ?_ (fun s a s' _ h _ hst => h.step (step_spec hst))
  rintro s rfl
  exact ⟨fun _ _ => rfl, fun k invocation hk => by cases hk⟩

/-! ## The words on the screen -/

theorem shown_of_cleanUp (s : SendWindow) (k : Nat) :
    (s.cleanUp k).shown = s.shown ∨ (s.cleanUp k).shown = some (renderView (s.cleanUp k).view) := by
  obtain ⟨-, heq⟩ | ⟨-, heq⟩ := cleanUp_cases s k <;> rw [heq]
  · exact .inl rfl
  · exact .inr rfl

/-- What a step puts on the screen: nothing new, what `render` makes of the state, or a file
that is being sent. -/
theorem shown_step (hst : Step text decode device typeError s a s') :
    s'.shown = s.shown ∨ s'.shown = some (renderView s'.view) ∨
      ∃ view record, s'.shown = some (renderView view) ∧ view.transfer = some record ∧
        record.status = .sending := by
  cases hst with
  | watch | listen | readPeers | idle | choose | mkdir | process => exact .inl rfl
  | start | deliverPeers | select | useTicket | leave | removed | deliver | receive =>
    exact .inr (.inl rfl)
  | settle => exact (shown_of_cleanUp _ _).imp_right .inl
  | @materialize _ k selected staging =>
    cases selected with
    | error error => exact (shown_of_cleanUp _ _).imp_right .inl
    | ok filename =>
      have hshowing : ∃ record, ((s.setStaging k staging).showing k filename).view.transfer =
          some record ∧ record.status = .sending :=
        ⟨{ status := .sending, filename }, by simp [showing, view, render, SendPage.create], rfl⟩
      obtain ⟨record, hrecord, hsending⟩ := hshowing
      simp only [materialized]
      split
      · exact .inr (.inr ⟨_, record, rfl, hrecord, hsending⟩)
      · obtain h | h := shown_of_cleanUp { (s.setStaging k staging).showing k filename with
          page := SendPage.materialized typeError s.page k (.ok filename) } k
        · exact .inr (.inr ⟨_, record, h, hrecord, hsending⟩)
        · exact .inr (.inl h)

theorem grows_of_cleanUp (s : SendWindow) (k : Nat) :
    (s.cleanUp k).watch = s.watch ∧ (s.cleanUp k).entered = s.entered := by
  obtain ⟨-, heq⟩ | ⟨-, heq⟩ := cleanUp_cases s k <;> rw [heq] <;> exact ⟨rfl, rfl⟩

/-- What was announced and what was typed stays so. -/
theorem grows_step (hst : Step text decode device typeError s a s') :
    s.watch.events <+: s'.watch.events ∧ s.entered <+: s'.entered := by
  have hsame : ∀ {t : SendWindow}, t.watch = s.watch ∧ t.entered = s.entered →
      s.watch.events <+: t.watch.events ∧ s.entered <+: t.entered := by
    rintro t ⟨hwatch, hentered⟩
    rw [hwatch, hentered]
    exact ⟨List.prefix_refl _, List.prefix_refl _⟩
  cases hst with
  | watch hwatch =>
    exact ⟨PeerWatch.events_of_step (PeerWatch.step_spec hwatch), List.prefix_refl _⟩
  | useTicket => exact ⟨List.prefix_refl _, List.prefix_append _ _⟩
  | settle => exact hsame (grows_of_cleanUp _ _)
  | materialize =>
    refine hsame ?_
    unfold materialized
    split
    · exact grows_of_cleanUp _ _
    · dsimp only
      split
      · exact ⟨rfl, rfl⟩
      · exact grows_of_cleanUp _ _
  | _ => exact hsame ⟨rfl, rfl⟩

end SendWindow

/-- The outcome that the content of a screen tells. -/
def Content.told : Content → Option SendOutcome
  | .ended kind .. =>
    if kind = "success" then some .completed
    else if kind = "warning" then some .declined
    else none
  | _ => none

theorem told_renderTransfer {record : SendRecord} {outcome : SendOutcome}
    (h : (renderTransfer record).told = some outcome) : record.status = outcome.status := by
  unfold renderTransfer at h
  split at h
  · cases h
  · cases h
    assumption
  · cases h
    assumption
  · split at h <;> cases h

/-- Only a record with an outcome tells one. -/
theorem told_renderView {view : View} {outcome : SendOutcome}
    (h : (renderView view).content.told = some outcome) :
    ∃ selected record, view.selectedPeer = some selected ∧ view.transfer = some record ∧
      record.status = outcome.status ∧ (renderView view).content = renderTransfer record := by
  simp only [renderView] at h ⊢
  split at h
  · unfold renderReceive at h
    split at h <;> cases h
  · unfold renderPeers at h
    split at h <;> cases h
  · cases h
  · rename_i selected record _ hselected htransfer
    exact ⟨selected, record, hselected, htransfer, told_renderTransfer h, rfl⟩

namespace SendNetwork
variable {text : PeerText} {decode : String → Option EndpointAddr} {device : Device}
  {typeError : String → String} {codec : TicketCodec} {network : EndpointId → Nat → Recipient}
  {s s' : SendNetwork} {a : Action}

/-- The name in the first record of a call is the one that `materializeFile` has returned,
or that of the file; so are the names on their way to it. -/
structure Named (s : SendNetwork) : Prop where
  begun : ∀ k, (s.selected k).isSome = true →
    s.window.page.calls k ≠ .none ∧ s.window.page.calls k ≠ .materializing
  records : ∀ k record, s.window.page.records ⟨k, false⟩ = some record → ∃ selected,
    s.selected k = some selected ∧ (record.filename = selected.filename ∨
      Path.fileName selected.path = some record.filename)
  events : ∀ event ∈ s.window.page.events, ∀ filename total,
    event.payload = .started filename total →
    ∃ selected, s.selected event.source = some selected ∧
      Path.fileName selected.path = some filename

/-- What stands behind the words on a screen: a call that has resolved so, the peer that it
sent to, and its file. -/
structure Worded (text : PeerText) (decode : String → Option EndpointAddr) (s : SendNetwork)
    (screen : Screen) (outcome : SendOutcome) (k : Nat) : Prop where
  finished : s.window.page.calls k = .finished (.ok outcome)
  peer : ∃ peer invocation, s.window.invocations k = some invocation ∧
    invocation.targetTicket = peer.ticket ∧ SendWindow.Known text decode s.window peer ∧
    screen.header.title = "Sending" ∧ screen.header.subtitle = s!"To “{Peer.name peer}”"
  file : ∃ selected record, s.selected k = some selected ∧
    screen.content = renderTransfer record ∧ record.status = outcome.status ∧
    (record.filename = selected.filename ∨ Path.fileName selected.path = some record.filename)

/-- What `materializeFile` has returned to a call stays, once the call goes on. -/
theorem selected_kept (hst : Step text decode device typeError codec network s a s') {k : Nat}
    (hk : s.window.page.calls k ≠ .materializing) : s'.selected k = s.selected k := by
  cases hst with
  | window | started | offered => rfl
  | @selected _ b j selected window haction hwindow =>
    refine Function.update_of_ne ?_ ..
    rintro rfl
    exact hk (calls_of_selected haction hwindow).1

theorem Named.begun_step (h : s.Named)
    (hst : Step text decode device typeError codec network s a s') {k : Nat}
    (hk : (s'.selected k).isSome = true) :
    s'.window.page.calls k ≠ .none ∧ s'.window.page.calls k ≠ .materializing := by
  have hold : (s.selected k).isSome = true →
      s'.window.page.calls k ≠ .none ∧ s'.window.page.calls k ≠ .materializing := by
    intro hsome
    obtain ⟨b, hwindow, -⟩ := window_step hst
    rcases SendWindow.page_step hwindow with hpage | ⟨c, -, hstep⟩
    · rw [hpage]
      exact h.begun k hsome
    · exact SendPage.begun_kept (SendPage.step_spec hstep) (h.begun k hsome)
  cases hst with
  | window | started | offered => exact hold hk
  | @selected _ b j selected window haction hwindow =>
    by_cases heq : k = j
    · subst heq
      exact (calls_of_selected haction hwindow).2
    · have hsame : (s.select j selected window).selected k = s.selected k :=
        Function.update_of_ne heq ..
      exact hold (hsame ▸ hk)

theorem Named.step (h : s.Named) (hplaced : s.Placed a)
    (hst : Step text decode device typeError codec network s a s') : s'.Named := by
  have hkept : ∀ {k : Nat} {selected : Selected}, s.selected k = some selected →
      s'.selected k = some selected := by
    intro k selected hk
    exact (selected_kept hst (h.begun k (by rw [hk]; rfl)).2).trans hk
  obtain ⟨b, hwindow, hfits⟩ := window_step hst
  rcases SendWindow.page_step hwindow with hpage | ⟨c, hc, hstep⟩
  · refine ⟨fun k hk => h.begun_step hst hk, fun k record hrecord => ?_,
      fun event hevent filename total hpayload => ?_⟩ <;> rw [hpage] at *
    · obtain ⟨selected, hselected, hname⟩ := h.records k record hrecord
      exact ⟨selected, hkept hselected, hname⟩
    · obtain ⟨selected, hselected, hname⟩ := h.events event hevent filename total hpayload
      exact ⟨selected, hkept hselected, hname⟩
  obtain ⟨hcplaced, hfilename, hstarted⟩ := hfits c hc
  refine ⟨fun k hk => h.begun_step hst hk, fun k record hrecord => ?_,
    fun event hevent filename total hpayload => ?_⟩
  · obtain ⟨old, hold, hsame⟩ | rfl | ⟨event, events, total, rfl, hevents, htransfer, hpayload⟩ :=
      SendPage.filename_step (SendPage.step_spec hstep) hrecord
    · obtain ⟨selected, hselected, hname⟩ := h.records k old hold
      rw [← hsame] at hname
      exact ⟨selected, hkept hselected, hname⟩
    · obtain ⟨selected, hselected, hname⟩ := hfilename k record.filename rfl
      exact ⟨selected, hselected, .inl hname.symm⟩
    · -- the event is one of the call whose record it meets
      have hclear : s.window.page.clear event.source = true := by
        obtain ⟨source, payload⟩ := event
        cases hpayload
        simpa [SendPage.Placed, SendPage.misplaces, hevents] using hcplaced hplaced
      have hsource : k = event.source := SendPage.clear_iff.mp hclear _ htransfer
      obtain ⟨selected, hselected, hname⟩ :=
        h.events event (hevents ▸ List.mem_cons_self) record.filename total hpayload
      exact ⟨selected, hkept (hsource ▸ hselected), .inr hname⟩
  · obtain hold | ⟨k, filename', total', rfl, rfl⟩ | ⟨progress, hprogress⟩ :=
      SendPage.events_step hstep hevent
    · obtain ⟨selected, hselected, hname⟩ := h.events event hold filename total hpayload
      exact ⟨selected, hkept hselected, hname⟩
    · cases hpayload
      exact hstarted k filename total rfl
    · rw [hprogress] at hpayload
      cases hpayload

theorem reachable_named
    (hs : (machine text decode device typeError codec network).ReachableBy Placed s) : s.Named := by
  refine hs.invariant (I := Named) ?_ (fun s a s' _ h hplaced hst => h.step hplaced (step_spec hst))
  rintro s rfl
  exact ⟨nofun, nofun, nofun⟩

/-- What stands behind the words stays. -/
theorem Worded.mono {screen : Screen} {outcome : SendOutcome} {k : Nat}
    (h : Worded text decode s screen outcome k) (hended : s.window.page.Ended)
    (hinvoked : s.window.page.Invoked)
    (hst : Step text decode device typeError codec network s a s') :
    Worded text decode s' screen outcome k := by
  obtain ⟨hfinished, ⟨peer, invocation, hinvocation, hticket, hknown, hheader⟩, hfile⟩ := h
  obtain ⟨b, hwindow, -⟩ := window_step hst
  have hexecution : (s.window.page.executions k).isSome = true := by
    obtain ⟨execution, hk, -⟩ := Option.bind_eq_some_iff.mp (hended.calls k outcome hfinished)
    rw [hk]
    rfl
  have hinvocations :=
    SendWindow.invocations_step hinvoked (SendWindow.step_spec hwindow) hexecution
  obtain ⟨hevents, hentered⟩ := SendWindow.grows_step (SendWindow.step_spec hwindow)
  refine ⟨?_, ⟨peer, invocation, hinvocations.trans hinvocation, hticket,
    hknown.mono hevents hentered, hheader⟩, ?_⟩
  · rcases SendWindow.page_step hwindow with hpage | ⟨c, -, hstep⟩
    · rwa [hpage]
    · exact SendPage.finished_kept (SendPage.step_spec hstep) hfinished
  · rwa [selected_kept hst (by rw [hfinished]; nofun)]

/-- A step says what was said before, or what `render` makes of a record. -/
theorem told_step {w w' : SendWindow} {b : SendWindow.Action}
    (hst : SendWindow.Step text decode device typeError w b w') {P : Screen → SendOutcome → Prop}
    (hold : ∀ screen outcome, w.shown = some screen → screen.content.told = some outcome →
      P screen outcome)
    (hnew : ∀ selected r record outcome, w'.page.selectedPeer = some selected →
      w'.page.transfer = some r → w'.page.records r = some record →
      record.status = SendOutcome.status outcome →
      (renderView w'.view).content = renderTransfer record → P (renderView w'.view) outcome) :
    ∀ screen outcome, w'.shown = some screen → screen.content.told = some outcome →
      P screen outcome := by
  intro screen outcome hshown htold
  obtain hsame | hdrawn | ⟨view, record, hdrawn, htransfer, hsending⟩ := SendWindow.shown_step hst
  · exact hold screen outcome (hsame ▸ hshown) htold
  · rw [hdrawn] at hshown
    cases hshown
    obtain ⟨selected, record, hselected, htransfer, hstatus, hcontent⟩ := told_renderView htold
    obtain ⟨r, hr, hrecord⟩ := Option.bind_eq_some_iff.mp htransfer
    exact hnew selected r record outcome hselected hr hrecord hstatus hcontent
  · rw [hdrawn] at hshown
    cases hshown
    obtain ⟨-, record', -, htransfer', hstatus, -⟩ := told_renderView htold
    rw [htransfer] at htransfer'
    cases htransfer'
    exact absurd (hstatus.symm.trans hsending) (SendPage.status_ne_sending outcome)

/-- Whatever is said of an outcome, a call has resolved with it. -/
theorem told_finished (hs : (machine text decode device typeError codec network).Reachable s) :
    ∀ screen outcome, s.window.shown = some screen → screen.content.told = some outcome →
      ∃ k, s.window.page.calls k = .finished (.ok outcome) := by
  refine hs.invariant (I := fun s => ∀ screen outcome, s.window.shown = some screen →
    screen.content.told = some outcome →
    ∃ k, s.window.page.calls k = .finished (.ok outcome)) ?_ ?_
  · rintro s rfl screen outcome hshown
    cases hshown
  intro s a s' hs h _ hst
  have hended' := SendPage.reachable_ended
    (SendWindow.reachable_page (reachable_window (.step hs trivial hst)))
  obtain ⟨b, hwindow, -⟩ := window_step (step_spec hst)
  refine told_step (SendWindow.step_spec hwindow) (fun screen outcome hshown htold => ?_)
    (fun _ r record outcome _ _ hrecord hstatus _ =>
        hended'.records r record outcome hrecord hstatus)
  obtain ⟨k, hk⟩ := h screen outcome hshown htold
  rcases SendWindow.page_step hwindow with hpage | ⟨c, -, hstep⟩
  · exact ⟨k, hpage ▸ hk⟩
  · exact ⟨k, SendPage.finished_kept (SendPage.step_spec hstep) hk⟩

/-- If every call writes to its own record, the screen is about that call. -/
theorem told_worded
    (hs : (machine text decode device typeError codec network).ReachableBy Placed s) :
    ∀ screen outcome, s.window.shown = some screen → screen.content.told = some outcome →
      ∃ k, Worded text decode s screen outcome k := by
  refine hs.invariant (I := fun s => ∀ screen outcome, s.window.shown = some screen →
    screen.content.told = some outcome → ∃ k, Worded text decode s screen outcome k) ?_ ?_
  · rintro s rfl screen outcome hshown
    cases hshown
  intro s a s' hs h hplaced hst
  have hpage := SendWindow.reachable_page (reachable_window hs.reachable)
  have hs' : (machine text decode device typeError codec network).ReachableBy Placed s' :=
    .step hs hplaced hst
  have hwindow' := reachable_window hs'.reachable
  obtain ⟨b, hwindow, -⟩ := window_step (step_spec hst)
  refine told_step (SendWindow.step_spec hwindow) (fun screen outcome hshown htold => ?_)
    (fun selected r record outcome hselected htransfer hrecord hstatus hcontent => ?_)
  · obtain ⟨k, hk⟩ := h screen outcome hshown htold
    exact ⟨k, hk.mono (SendPage.reachable_ended hpage) (SendPage.reachable_invoked hpage)
      (step_spec hst)⟩
  -- the record is the first one of its call, whose peer is selected
  obtain ⟨hfirst, hfinished⟩ :=
    SendPage.reachable_own (placed_page hs') r record outcome hrecord hstatus
  obtain ⟨k, fallback⟩ := r
  obtain rfl : fallback = false := hfirst
  obtain ⟨-, htargets⟩ := SendWindow.reachable_sources hwindow'
  obtain ⟨execution, hexecution, -⟩ := Option.bind_eq_some_iff.mp
    ((SendPage.reachable_ended (SendWindow.reachable_page hwindow')).calls k outcome hfinished)
  obtain ⟨invocation, hinvocation⟩ := Option.isSome_iff_exists.mp
    (htargets.executions k (by rw [hexecution]; rfl))
  obtain ⟨peer, hpeer, hticket⟩ :=
    (SendWindow.reachable_headed hwindow').peer k invocation htransfer hinvocation
  obtain ⟨file, hfile, hname⟩ := (reachable_named hs').records k record hrecord
  refine ⟨k, hfinished, ⟨peer.peer, invocation, hinvocation, hticket, htargets.selected peer hpeer,
    ?_⟩, file, record, hfile, hcontent, hstatus, hname⟩
  simp only [renderView, setHeader, SendWindow.view, hpeer, and_self]

end SendNetwork

/-- What is relied on of an attempt: the text of its ticket is read back, the store of the
machine gives for a hash what was sent under it, and a working directory is absolute. -/
structure Attempt.Reliable (codec : TicketCodec) (recipient : Recipient) (attempt : Attempt)
    (path : String) : Prop where
  ticket : ∀ offer, prepareOffer attempt.source path = .ok offer →
    codec.parse (codec.print offer.ticket) = some offer.ticket
  store : ∀ path hash format, attempt.source.addPath path = .ok (hash, format) →
    recipient.host.blob hash = attempt.source.content path
  currentDir : ∀ dir, attempt.source.currentDir = .ok dir → Path.IsAbsolute dir

/-- What an outcome says of the session behind it: the user has accepted and the file is
saved, under its name; or nothing is accepted and nothing saved. -/
def SendOutcome.Holds (attempt : Attempt) (recipient : Recipient) (path : String) (offer : Offer)
    (receiving : Receiving) : SendOutcome → Prop
  | completed => ∃ dir absPath name, (recipient.decide offer).decisionUi = some (.accept dir) ∧
      Path.fileName path = some name ∧ Path.absolute attempt.source.currentDir path = .ok absPath ∧
      receiving.files = [(Path.join dir name, attempt.source.content absPath)]
  | declined => receiving.files = [] ∧
      ∀ dir, (recipient.decide offer).decisionUi ≠ some (.accept dir)

/-- An outcome holds. -/
theorem Attempt.Reliable.holds {codec : TicketCodec} {recipient : Recipient} {attempt : Attempt}
    {path : String} (h : attempt.Reliable codec recipient path) {outcome : SendOutcome}
    (hresult : (attempt.transfer codec recipient path).1 = .ok outcome) :
    ∃ offer receiving, (attempt.transfer codec recipient path).2 = some (offer, receiving) ∧
      outcome.Holds attempt recipient path offer receiving := by
  cases outcome with
  | completed =>
    obtain ⟨offer, receiving, hshown, hfiles⟩ := transfer_completed h.ticket hresult
    obtain ⟨hprepare, hsaved, -⟩ := transfer_shown h.ticket hshown
    obtain ⟨dir, absPath, name, hdecision, hpath, hname, hfile, -⟩ :=
      (saved_source h.store h.currentDir hprepare hsaved).resolve_left hfiles
    obtain ⟨_, _, _, hoffer, hpath', -⟩ := prepareOffer_ok hprepare
    obtain rfl := Except.ok.inj (hpath.symm.trans hpath')
    have hsame := Path.fileName_absolute h.currentDir hpath hoffer
    rw [hname] at hsame
    exact ⟨offer, receiving, hshown, dir, absPath, name, hdecision, hsame ▸ hoffer, hpath, hfile⟩
  | declined =>
    obtain ⟨offer, receiving, hshown, hfiles, hno⟩ := transfer_declined h.ticket hresult
    exact ⟨offer, receiving, hshown, hfiles, hno⟩

namespace SendNetwork
variable {text : PeerText} {decode : String → Option EndpointAddr} {device : Device}
  {typeError : String → String} {codec : TicketCodec} {network : EndpointId → Nat → Recipient}
  {s : SendNetwork}

/-- Execution `k` has sent its file to the machine at `addr`, where the outcome holds. -/
structure Delivered (decode : String → Option EndpointAddr) (codec : TicketCodec)
    (network : EndpointId → Nat → Recipient) (s : SendNetwork) (outcome : SendOutcome) (k : Nat)
    (addr : EndpointAddr) : Prop where
  target : s.window.target decode k = some addr
  session : ∃ selected attempt offer receiving, s.selected k = some selected ∧
    s.attempts k = some attempt ∧
    (attempt.transfer codec (network addr.id k) selected.path).2 = some (offer, receiving) ∧
    outcome.Holds attempt (network addr.id k) selected.path offer receiving

/-- The screen names the peer at `addr` and the file of execution `k`. -/
structure Accurate (decode : String → Option EndpointAddr) (s : SendNetwork) (screen : Screen)
    (outcome : SendOutcome) (k : Nat) (addr : EndpointAddr) : Prop where
  peer : ∃ name, screen.header.title = "Sending" ∧ screen.header.subtitle = s!"To “{name}”" ∧
    ((∃ before, before <+: s.window.watch.events ∧
        announced before addr.id = some (UserData.mk name, addr)) ∨
      name = "Ticket device" ∧
        ∃ ticket ∈ s.window.entered, SendWindow.decodeTicket decode ticket = some addr)
  file : ∃ selected record, s.selected k = some selected ∧
    screen.content = renderTransfer record ∧ record.status = outcome.status ∧
    (record.filename = selected.filename ∨ Path.fileName selected.path = some record.filename)

/-- **What is told of a send is so.**  When the screen says that a file was sent or declined,
a machine that this window has sent a file to has saved it, or has not.  If every call
writes to its own record, it is the file and the machine that the screen names. -/
theorem sent_as_told (hs : (machine text decode device typeError codec network).Reachable s)
    (hannounced : ∀ info, .discovered info ∈ s.window.watch.events →
      SendWindow.RoundTrips text decode info.intoEndpointAddr)
    (hentered : ∀ ticket ∈ s.window.entered, ∀ addr,
      SendWindow.decodeTicket decode ticket = some addr → SendWindow.RoundTrips text decode addr)
    (hreliable : ∀ k selected attempt addr, s.selected k = some selected →
      s.attempts k = some attempt → s.window.target decode k = some addr →
      attempt.Reliable codec (network addr.id k) selected.path)
    {screen : Screen} {outcome : SendOutcome} (hshown : s.window.shown = some screen)
    (htold : screen.content.told = some outcome) :
    (∃ k addr, s.Delivered decode codec network outcome k addr) ∧
      ((machine text decode device typeError codec network).ReachableBy Placed s →
        ∃ k addr, s.Delivered decode codec network outcome k addr ∧
          s.Accurate decode screen outcome k addr) := by
  have hdelivered : ∀ k, s.window.page.calls k = .finished (.ok outcome) →
      ∃ addr, s.Delivered decode codec network outcome k addr := by
    intro k hk
    have hended := SendPage.reachable_ended (SendWindow.reachable_page (reachable_window hs))
    obtain ⟨selected, attempt, addr, hselected, hattempt, htarget, hresult⟩ :=
      transfer_of_result hs (hended.calls k outcome hk)
    obtain ⟨offer, receiving, hshown, hholds⟩ :=
      (hreliable k selected attempt addr hselected hattempt htarget).holds hresult
    exact ⟨addr, htarget, selected, attempt, offer, receiving, hselected, hattempt, hshown, hholds⟩
  refine ⟨?_, fun hplaced => ?_⟩
  · obtain ⟨k, hk⟩ := told_finished hs screen outcome hshown htold
    exact ⟨k, hdelivered k hk⟩
  · obtain ⟨k, hfinished, ⟨peer, invocation, hinvocation, hticket, hknown, htitle, hsubtitle⟩,
      hfile⟩ := told_worded hplaced screen outcome hshown htold
    obtain ⟨addr, hd⟩ := hdelivered k hfinished
    obtain ⟨addr', haddr, hname⟩ := hknown.address hannounced hentered
    -- the ticket of the peer is the one that was sent to
    have hsame : addr' = addr := by
      have htarget := hd.target
      rw [SendWindow.target, hinvocation, Option.bind_some, hticket, haddr] at htarget
      exact Option.some.inj htarget
    subst hsame
    exact ⟨k, addr', hd, ⟨⟨Peer.name peer, htitle, hsubtitle, hname⟩, hfile⟩⟩

/-- Bob is announced, listed and clicked; he is sent a file, and accepts it. -/
def toldRun : List Action :=
  let bob : EndpointInfo := ⟨⟨2⟩, some ⟨"bob"⟩, ["b"]⟩
  [.window (.watch (.event (.discovered bob) [(⟨"bob"⟩, ⟨⟨2⟩, ["b"]⟩)])),
    .window (.watch .snapshot), .window .listen, .window .readPeers, .window .start,
    .window (.select ⟨"2", "bob", "b"⟩), .window (.choose 0 "/home/u/docs/a.txt"),
    .unstaged 0 ⟨"/home/u/docs/a.txt", "a.txt"⟩, .window (.process (.lock 0)),
    .start 0 .sample, .window .deliver, .offer 0 ⟨.sample, {}⟩,
    .window (.process (.send 0 .read)), .window (.process (.send 0 .read)), .window (.settle 0)]

/-- The ticket of Bob. -/
def decodeBob (ticket : String) : Option EndpointAddr :=
  if ticket = "b" then some ⟨⟨2⟩, ["b"]⟩ else none

/-- Every machine has a user who saves everything. -/
abbrev sampleNetwork : Machine SendNetwork Action :=
  machine PeerWatch.sampleText decodeBob ⟨"me", false⟩ id Offer.sampleCodec fun _ _ => .sample

theorem sent_as_told_saved : ∃ s screen k addr, sampleNetwork.exec {} toldRun = some s ∧
    s.window.shown = some screen ∧ screen.content.told = some .completed ∧
    s.Delivered decodeBob Offer.sampleCodec (fun _ _ => .sample) .completed k addr ∧
    s.Accurate decodeBob screen .completed k addr := by
  have hstart : sampleNetwork.ReachableBy Placed {} := .init rfl
  have hrun : sampleNetwork.exec {} toldRun = some _ := rfl
  have hmeets : sampleNetwork.Meets Placed {} toldRun := by decide +kernel
  have hs := hstart.exec hmeets hrun
  obtain ⟨-, htold⟩ := sent_as_told hs.reachable
    (fun info hinfo => by
      replace hinfo : DiscoveryEvent.discovered info ∈
        [.discovered ⟨⟨2⟩, some ⟨"bob"⟩, ["b"]⟩] := hinfo
      obtain rfl : info = ⟨⟨2⟩, some ⟨"bob"⟩, ["b"]⟩ := by simpa using hinfo
      exact (by decide : SendWindow.decodeTicket decodeBob "b" = some ⟨⟨2⟩, ["b"]⟩))
    nofun
    (fun k selected attempt addr hselected hattempt _ => by
      cases k with
      | zero =>
        obtain rfl : ⟨"/home/u/docs/a.txt", "a.txt"⟩ = selected := Option.some.inj hselected
        obtain rfl : ⟨.sample, {}⟩ = attempt := Option.some.inj hattempt
        refine ⟨fun offer hoffer => ?_, fun _ _ _ _ => rfl, ?_⟩
        · have hprepare : prepareOffer .sample "/home/u/docs/a.txt" = .ok Offer.sampleOffer := rfl
          cases hprepare.symm.trans hoffer
          decide
        · rintro dir ⟨⟩
          decide
      | succ k => cases hselected)
    rfl (show _ = some SendOutcome.completed from rfl)
  obtain ⟨k, addr, hd, ha⟩ := htold hs
  exact ⟨_, _, k, addr, hrun, rfl, rfl, hd, ha⟩

end SendNetwork
end IrohShare
