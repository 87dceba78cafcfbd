import IrohShare.SendPage

/-!
# What a record shows

A record belongs to the call that made it, but everything is written through
`state.transfer`.  If that refers to the record of the right call whenever something is
written, then a step touches the records of one call only, and each record shows how its
own call ended.
-/
namespace IrohShare
open Transition

theorem RecordId.ne_of_call {r r' : RecordId} {k : Nat} (hr : r.call = k) (hr' : r'.call ≠ k) :
    r' ≠ r := by
  rintro rfl
  exact hr' hr

namespace SendPage

variable {typeError : String → String} {s s' : SendPage} {a : Action}

/-! ## Records -/

/-- A record that is there after one has been written is that one, or was there. -/
theorem update_eq_some {records : RecordId → Option SendRecord} {r r₁ : RecordId}
    {record record₁ : SendRecord}
    (h : Function.update records r (some record) r₁ = some record₁) :
    (r₁ = r ∧ record₁ = record) ∨ (r₁ ≠ r ∧ records r₁ = some record₁) := by
  by_cases hr : r₁ = r
  · rw [hr, Function.update_self] at h
    exact .inl ⟨hr, (Option.some.inj h).symm⟩
  · rw [Function.update_of_ne hr] at h
    exact .inr ⟨hr, h⟩

/-- Records keep their status when one is written that keeps its own. -/
theorem status_update {records : RecordId → Option SendRecord} {r r₁ : RecordId}
    {record record' record₁ : SendRecord} (hrecord : records r = some record)
    (hstatus : record'.status = record.status) (h : records r₁ = some record₁) :
    ∃ record₁', Function.update records r (some record') r₁ = some record₁' ∧
      record₁'.status = record₁.status := by
  by_cases hr : r₁ = r
  · obtain rfl := Option.some.inj (hrecord.symm.trans (hr ▸ h))
    exact ⟨record', by rw [hr, Function.update_self], hstatus⟩
  · exact ⟨record₁, by rw [Function.update_of_ne hr, h], rfl⟩

/-- Which records there are: a call makes its record when `materializeFile` has returned,
or in its `catch`; `state.transfer` refers to one that is there; and the record of a call in
`send_file` is sending. -/
structure Sound (s : SendPage) : Prop where
  made : ∀ r, (s.records r).isSome = true →
    s.calls r.call = .sending ∨ ∃ result, s.calls r.call = .finished result
  fallback : ∀ k, (s.records ⟨k, true⟩).isSome = true → ∃ result, s.calls k = .finished result
  refers : ∀ r, s.transfer = some r → (s.records r).isSome = true
  sending : ∀ k, s.calls k = .sending →
    ∃ record, s.records ⟨k, false⟩ = some record ∧ record.status = .sending

theorem Sound.unmade (h : s.Sound) {k : Nat}
    (hk : s.calls k = .none ∨ s.calls k = .materializing) (b : Bool) :
    s.records ⟨k, b⟩ = none := by
  rw [← Option.not_isSome_iff_eq_none]
  intro hsome
  rcases h.made _ hsome with hsending | ⟨result, hfinished⟩
  · rw [show s.calls k = .sending from hsending] at hk
    rcases hk with hk | hk <;> cases hk
  · rw [show s.calls k = .finished result from hfinished] at hk
    rcases hk with hk | hk <;> cases hk

theorem Sound.unfallen (h : s.Sound) {k : Nat} (hk : s.calls k = .sending) :
    s.records ⟨k, true⟩ = none := by
  rw [← Option.not_isSome_iff_eq_none]
  intro hsome
  obtain ⟨result, hfinished⟩ := h.fallback k hsome
  rw [hfinished] at hk
  cases hk

/-- The `catch` of a call marks the record that `state.transfer` refers to, or makes one. -/
theorem catchError_eq (hrefers : ∀ r, s.transfer = some r → (s.records r).isSome = true)
    (k : Nat) (error : String) : ∃ r record',
      s.catchError k error =
        { s with transfer := some r, records := Function.update s.records r (some record') } ∧
      record'.status = .failed ∧ record'.error = some error ∧
      ((∃ record, s.transfer = some r ∧ s.records r = some record ∧
          record' = { record with status := .failed, error := some error }) ∨
        s.transfer = none ∧ r = ⟨k, true⟩) := by
  unfold catchError
  dsimp only
  split
  · rename_i r htransfer
    obtain ⟨record, hrecord⟩ := Option.isSome_iff_exists.mp (hrefers r htransfer)
    refine ⟨r, { record with status := .failed, error := some error }, ?_, rfl, rfl,
      .inl ⟨record, htransfer, hrecord, rfl⟩⟩
    rw [modify, hrecord, Option.map_some, ← htransfer]
  · rename_i hnone
    exact ⟨⟨k, true⟩, _, rfl, rfl, rfl, .inr ⟨hnone, rfl⟩⟩

/-! ## Steps that are not misplaced -/

/-- What call `k` has written to its record `r`: it begins, or its `send_file` has resolved,
or it is rejected. -/
inductive Written (s s' : SendPage) (k : Nat) (r : RecordId) (record' : SendRecord) : Prop
  | begun : s.calls k = .materializing → s'.calls k = .sending → r = ⟨k, false⟩ →
      record'.status = .sending → Written s s' k r record'
  | resolved (outcome : SendOutcome) (record : SendRecord) : s.calls k = .sending →
      s'.calls k = .finished (.ok outcome) → r = ⟨k, false⟩ → s.records r = some record →
      record' = { record with status := outcome.status } → Written s s' k r record'
  | rejected (error : String) : s.calls k = .materializing ∨ s.calls k = .sending →
      s'.calls k = .finished (.error error) → record'.status = .failed →
      record'.error = some error →
      (∀ record, s.records r = some record →
        record' = { record with status := .failed, error := some error }) →
      Written s s' k r record'

/-- What a step does to the records: nothing; the listener of an event changes the fields
of one; or a call writes to its own. -/
inductive Turn (s : SendPage) (a : Action) (s' : SendPage) : Prop
  | still : s'.records = s.records → s'.calls = s.calls →
      s'.transfer = s.transfer ∨ s'.transfer = none → Turn s a s'
  | called (k : Nat) (call : SendCall) : s.calls k = .none →
      call = .returned ∨ call = .materializing → s' = s.setCall k call → Turn s a s'
  | heard (event : SendEvent) (events : List SendEvent) (r : RecordId)
      (record record' : SendRecord) : a = .deliver → s.events = event :: events →
      r.call = event.source → s'.calls = s.calls → s'.transfer = s.transfer →
      s.records r = some record → record'.status = record.status →
      record'.error = record.error →
      s'.records = Function.update s.records r (some record') → Turn s a s'
  | wrote (k : Nat) (r : RecordId) (record' : SendRecord) : r.call = k →
      (∀ j, j ≠ k → s'.calls j = s.calls j) → s'.transfer = some r →
      s'.records = Function.update s.records r (some record') →
      Written s s' k r record' → Turn s a s'

theorem clear_iff {k : Nat} : s.clear k = true ↔ ∀ r, s.transfer = some r → r.call = k := by
  simp [clear, Option.all_eq_true]

/-- A `catch` that meets no record of another call writes to its own. -/
theorem Turn.caught (h : s.Sound) {k : Nat} {error : String}
    (hk : s.calls k = .materializing ∨ s.calls k = .sending) (hclear : s.clear k = true) :
    Turn s a ((s.catchError k error).setCall k (.finished (.error error))) := by
  obtain ⟨r, record', heq, hfailed, herror, htarget⟩ := catchError_eq h.refers k error
  rw [heq]
  refine .wrote k r record' ?_ (fun j hj => Function.update_of_ne hj ..) rfl rfl
    (.rejected error hk (Function.update_self ..) hfailed herror fun record hrecord => ?_)
  · rcases htarget with ⟨_, htransfer, -, -⟩ | ⟨-, rfl⟩
    · exact clear_iff.mp hclear r htransfer
    · rfl
  · rcases htarget with ⟨record₀, -, hrecord₀, hmarked⟩ | ⟨-, rfl⟩
    · obtain rfl := Option.some.inj (hrecord₀.symm.trans hrecord)
      exact hmarked
    · -- the record that a `catch` makes was not there
      have hnone : s.records ⟨k, true⟩ = none := by
        rcases hk with hk | hk
        · exact h.unmade (.inr hk) true
        · exact h.unfallen hk
      rw [hnone] at hrecord
      cases hrecord

theorem Turn.materialized (h : s.Sound) {k : Nat} {selected : Except String String}
    (hk : s.calls k = .materializing) (hplaced : s.Placed (.materialize k selected)) :
    Turn s a (materialized typeError s k selected) := by
  cases selected with
  | error error =>
    exact .caught h (.inl hk) (by simpa [Placed, misplaces] using hplaced)
  | ok filename =>
    simp only [SendPage.materialized]
    split
    · exact .wrote k ⟨k, false⟩ { status := .sending, filename } rfl
        (fun j hj => Function.update_of_ne hj ..) rfl rfl
        (.begun hk (Function.update_self ..) rfl rfl)
    · -- the record made a moment ago is marked
      have hmarked : ((s.create ⟨k, false⟩ { status := .sending, filename }).catchError k
          (typeError "ticket")).records = Function.update s.records ⟨k, false⟩
            (some { status := .failed, filename, error := some (typeError "ticket") }) := by
        simp [catchError, create, modify]
      refine .wrote k ⟨k, false⟩ _ rfl (fun j hj => Function.update_of_ne hj ..) rfl hmarked
        (.rejected (typeError "ticket") (.inl hk) (Function.update_self ..) rfl rfl ?_)
      intro record hrecord
      rw [h.unmade (.inr hk)] at hrecord
      cases hrecord

theorem Turn.settled (h : s.Sound) {k : Nat} {result : Except String SendOutcome}
    (hk : s.calls k = .sending) (hresult : (s.executions k).bind Execution.result = some result)
    (hplaced : s.Placed (.settle k)) : Turn s a (settled typeError s k result) := by
  cases result with
  | error error =>
    exact .caught h (.inr hk) (by simpa [Placed, misplaces, hresult] using hplaced)
  | ok outcome =>
    have htransfer : s.transfer = some ⟨k, false⟩ := by
      simpa [Placed, misplaces, hresult] using hplaced
    obtain ⟨record, hrecord⟩ := Option.isSome_iff_exists.mp (h.refers _ htransfer)
    simp only [SendPage.settled, htransfer]
    refine .wrote k ⟨k, false⟩ { record with status := outcome.status } rfl
      (fun j hj => Function.update_of_ne hj ..) htransfer ?_
      (.resolved outcome record hk (Function.update_self ..) rfl hrecord rfl)
    rw [setCall, modify, hrecord, Option.map_some]

/-- A listener writes to the record that `state.transfer` refers to. -/
theorem Turn.assigned (h : s.Sound) {event : SendEvent} {events : List SendEvent} {r : RecordId}
    (hevents : s.events = event :: events) (htransfer : s.transfer = some r)
    (hclear : s.clear event.source = true) {f : SendRecord → SendRecord}
    (hstatus : ∀ record, (f record).status = record.status)
    (herror : ∀ record, (f record).error = record.error) :
    Turn s .deliver ({ s with events }.modify r f) := by
  obtain ⟨record, hrecord⟩ := Option.isSome_iff_exists.mp (h.refers r htransfer)
  refine .heard event events r record (f record) rfl hevents (clear_iff.mp hclear r htransfer)
    rfl rfl hrecord (hstatus record) (herror record) ?_
  simp only [modify, hrecord, Option.map_some]

theorem Turn.delivered (h : s.Sound) {event : SendEvent} {events : List SendEvent}
    (hevents : s.events = event :: events) (hplaced : s.Placed .deliver) :
    Turn s .deliver ({ s with events }.listen event.payload) := by
  obtain ⟨source, payload⟩ := event
  unfold listen
  dsimp only
  split
  · exact .still rfl rfl (.inl rfl)
  · rename_i r htransfer
    cases payload with
    | started filename total =>
      have hclear : s.clear source = true := by simpa [Placed, misplaces, hevents] using hplaced
      exact .assigned h hevents htransfer hclear (fun _ => rfl) (fun _ => rfl)
    | progress progress =>
      dsimp only
      split
      · rename_i hsending
        have hclear : s.clear source = true := by
          have hs : s.sending = true := hsending
          simpa [Placed, misplaces, hevents, hs] using hplaced
        exact .assigned h hevents htransfer hclear (fun _ => rfl) (fun _ => rfl)
      · exact .still rfl rfl (.inl rfl)

theorem turn (h : s.Sound) (hplaced : s.Placed a) (hst : Step typeError s a s') :
    Turn s a s' := by
  cases hst with
  | call hk hcall => exact .called _ _ hk hcall rfl
  | materialize hk => exact .materialized h hk hplaced
  | settle hk hresult => exact .settled h hk hresult hplaced
  | page htransfer _ => exact .still rfl rfl htransfer
  | deliver hevents => exact .delivered h hevents hplaced
  | process _ => exact .still rfl rfl (.inl rfl)

/-! ## What every step keeps -/

/-- A call that has written is in `send_file`, with its first record, or over. -/
theorem Written.after {k : Nat} {r : RecordId} {record' : SendRecord}
    (h : Written s s' k r record') :
    (s.calls k = .materializing ∧ s'.calls k = .sending ∧ r = ⟨k, false⟩ ∧
      record'.status = .sending) ∨ ∃ result, s'.calls k = .finished result := by
  cases h with
  | begun hbefore hk hr hstatus => exact .inl ⟨hbefore, hk, hr, hstatus⟩
  | resolved _ _ _ hk => exact .inr ⟨_, hk⟩
  | rejected _ _ hk => exact .inr ⟨_, hk⟩

theorem Sound.called (h : s.Sound) {k : Nat} {call : SendCall} (hk : s.calls k = .none)
    (hcall : call = .returned ∨ call = .materializing) : (s.setCall k call).Sound := by
  have hother : ∀ r, (s.records r).isSome = true → r.call ≠ k := by
    rintro ⟨_, b⟩ hsome rfl
    rw [h.unmade (.inl hk)] at hsome
    cases hsome
  refine ⟨fun r hr => ?_, fun j hj => ?_, h.refers, fun j hj => ?_⟩
  · rw [setCall_of_ne (hother r hr)]
    exact h.made r hr
  · rw [setCall_of_ne (hother ⟨j, true⟩ hj)]
    exact h.fallback j hj
  · by_cases hjk : j = k
    · subst hjk
      rw [setCall_self] at hj
      rcases hcall with rfl | rfl <;> cases hj
    · rw [setCall_of_ne hjk] at hj
      exact h.sending j hj

theorem Sound.turn (h : s.Sound) (hturn : Turn s a s') : s'.Sound := by
  cases hturn with
  | still hrecords hcalls htransfer =>
    refine ⟨by rw [hrecords, hcalls]; exact h.made, by rw [hrecords, hcalls]; exact h.fallback,
      fun r hr => ?_, by rw [hrecords, hcalls]; exact h.sending⟩
    rw [hrecords]
    rcases htransfer with hsame | hnone
    · exact h.refers r (hsame ▸ hr)
    · rw [hnone] at hr
      cases hr
  | called k call hk hcall heq =>
    subst heq
    exact h.called hk hcall
  | heard event events r record record' _ _ _ hcalls htransfer hrecord hstatus _ hrecords =>
    have hsome : ∀ r', (s'.records r').isSome = true → (s.records r').isSome = true := by
      intro r' hr'
      by_cases hr : r' = r
      · rw [hr, hrecord]
        rfl
      · rwa [hrecords, Function.update_of_ne hr] at hr'
    refine ⟨fun r' hr' => hcalls ▸ h.made r' (hsome r' hr'),
      fun k hk => hcalls ▸ h.fallback k (hsome _ hk), fun r' hr' => ?_, fun k hk => ?_⟩
    · rw [hrecords]
      by_cases hr : r' = r
      · rw [hr, Function.update_self]
        rfl
      · rw [Function.update_of_ne hr]
        exact h.refers r' (htransfer ▸ hr')
    · obtain ⟨record₀, hrecord₀, hsending⟩ := h.sending k (hcalls ▸ hk)
      obtain ⟨record₀', hrecord₀', hsame⟩ := status_update hrecord hstatus hrecord₀
      exact ⟨record₀', hrecords ▸ hrecord₀', hsame.trans hsending⟩
  | wrote k r record' hown hcalls htransfer hrecords hwritten =>
    refine ⟨fun r' hr' => ?_, fun j hj => ?_, fun r' hr' => ?_, fun j hj => ?_⟩
    · by_cases hk : r'.call = k
      · rw [hk]
        rcases hwritten.after with ⟨-, hsending, -, -⟩ | hfinished
        · exact .inl hsending
        · exact .inr hfinished
      · rw [hcalls _ hk]
        refine h.made r' ?_
        rwa [hrecords, Function.update_of_ne (RecordId.ne_of_call hown hk)] at hr'
    · by_cases hk : j = k
      · subst hk
        rcases hwritten.after with ⟨hbefore, -, rfl, -⟩ | hfinished
        · rw [hrecords, Function.update_of_ne (by simp), h.unmade (.inr hbefore)] at hj
          cases hj
        · exact hfinished
      · rw [hcalls j hk]
        refine h.fallback j ?_
        rwa [hrecords, Function.update_of_ne (RecordId.ne_of_call hown hk)] at hj
    · rw [htransfer] at hr'
      obtain rfl := Option.some.inj hr'
      rw [hrecords, Function.update_self]
      rfl
    · by_cases hk : j = k
      · subst hk
        rcases hwritten.after with ⟨-, -, rfl, hstatus⟩ | ⟨result, hfinished⟩
        · exact ⟨record', by rw [hrecords, Function.update_self], hstatus⟩
        · rw [hfinished] at hj
          cases hj
      · rw [hrecords, Function.update_of_ne (RecordId.ne_of_call hown hk)]
        exact h.sending j (hcalls j hk ▸ hj)

/-- An outcome that has been left in a record stays there. -/
theorem Kept.turn (hkept : s.Kept) (hturn : Turn s a s') : s'.Kept := by
  intro j outcome hj
  cases hturn with
  | still hrecords hcalls _ => exact hrecords ▸ hkept j outcome (hcalls ▸ hj)
  | called k call hk hcall heq =>
    subst heq
    by_cases hjk : j = k
    · subst hjk
      rw [setCall_self] at hj
      rcases hcall with rfl | rfl <;> cases hj
    · rw [setCall_of_ne hjk] at hj
      exact hkept j outcome hj
  | heard event events r record record' _ _ _ hcalls _ hrecord hstatus _ hrecords =>
    obtain ⟨record₀, hrecord₀, hkeeps⟩ := hkept j outcome (hcalls ▸ hj)
    obtain ⟨record₀', hrecord₀', hsame⟩ := status_update hrecord hstatus hrecord₀
    exact ⟨record₀', hrecords ▸ hrecord₀', hsame.trans hkeeps⟩
  | wrote k r record' hown hcalls _ hrecords hwritten =>
    by_cases hk : j = k
    · subst hk
      cases hwritten with
      | begun _ hsending =>
        rw [hsending] at hj
        cases hj
      | resolved outcome' record _ hfinished hr _ heq =>
        rw [hfinished] at hj
        cases hj
        subst hr
        exact ⟨record', by rw [hrecords, Function.update_self], by rw [heq]⟩
      | rejected _ _ hfinished =>
        rw [hfinished] at hj
        cases hj
    · rw [hrecords, Function.update_of_ne (RecordId.ne_of_call hown hk)]
      exact hkept j outcome (hcalls j hk ▸ hj)

/-- A rejection marks a record of its own call. -/
theorem Turn.failsOwn (hturn : Turn s a s') : FailsOwn s s' := by
  intro r₁ record₁ hrecord₁ hfailed
  cases hturn with
  | still hrecords _ _ => exact .inl ⟨record₁, hrecords ▸ hrecord₁, hfailed, rfl⟩
  | called k call _ _ heq =>
    subst heq
    exact .inl ⟨record₁, hrecord₁, hfailed, rfl⟩
  | heard event events r record record' _ _ _ _ _ hrecord hstatus herror hrecords =>
    rw [hrecords] at hrecord₁
    rcases update_eq_some hrecord₁ with ⟨rfl, rfl⟩ | ⟨-, hbefore⟩
    · exact .inl ⟨record, hrecord, hstatus ▸ hfailed, herror.symm⟩
    · exact .inl ⟨record₁, hbefore, hfailed, rfl⟩
  | wrote k r record' hown _ _ hrecords hwritten =>
    rw [hrecords] at hrecord₁
    rcases update_eq_some hrecord₁ with ⟨rfl, rfl⟩ | ⟨-, hbefore⟩
    · rw [hown]
      cases hwritten with
      | begun _ _ _ hstatus =>
        rw [hstatus] at hfailed
        cases hfailed
      | resolved outcome record _ _ _ _ heq =>
        rw [heq] at hfailed
        cases outcome <;> cases hfailed
      | rejected error hbefore hfinished _ herror _ =>
        refine .inr ⟨error, herror, hfinished, fun result hresult => ?_⟩
        rcases hbefore with hk | hk <;>
          · rw [hresult] at hk
            cases hk
    · exact .inl ⟨record₁, hbefore, hfailed, rfl⟩

/-- The fields of a record are changed by an event of its own call. -/
theorem Turn.changesOwn (h : s.Sound) (hturn : Turn s a s') : ChangesOwn s a s' := by
  intro r₁ record₁ record₁' hrecord₁ hrecord₁' hchanged
  have hsame : record₁' ≠ record₁ := by
    rintro rfl
    rcases hchanged with hne | hne | hne <;> exact hne rfl
  cases hturn with
  | still hrecords _ _ =>
    exact absurd (Option.some.inj ((hrecords ▸ hrecord₁').symm.trans hrecord₁)) hsame
  | called k call _ _ heq =>
    subst heq
    exact absurd (Option.some.inj (hrecord₁'.symm.trans hrecord₁)) hsame
  | heard event events r record record' ha hevents hown _ _ _ _ _ hrecords =>
    rw [hrecords] at hrecord₁'
    rcases update_eq_some hrecord₁' with ⟨rfl, -⟩ | ⟨-, hbefore⟩
    · exact ⟨event, events, ha, hevents, hown.symm⟩
    · exact absurd (Option.some.inj (hbefore.symm.trans hrecord₁)) hsame
  | wrote k r record' hown _ _ hrecords hwritten =>
    rw [hrecords] at hrecord₁'
    rcases update_eq_some hrecord₁' with ⟨rfl, rfl⟩ | ⟨-, hbefore⟩
    · cases hwritten with
      | begun hbefore _ hr _ =>
        rw [hr, h.unmade (.inr hbefore)] at hrecord₁
        cases hrecord₁
      | resolved outcome record _ _ _ hrecord heq =>
        obtain rfl := Option.some.inj (hrecord.symm.trans hrecord₁)
        rw [heq] at hchanged
        simp at hchanged
      | rejected error _ _ _ _ hmarked =>
        rw [hmarked record₁ hrecord₁] at hchanged
        simp at hchanged
    · exact absurd (Option.some.inj (hbefore.symm.trans hrecord₁)) hsame

theorem reachable_kept (hs : (machine typeError).ReachableBy Placed s) : s.Sound ∧ s.Kept := by
  refine hs.invariant (I := fun s => s.Sound ∧ s.Kept) ?_ ?_
  · rintro s rfl
    exact ⟨⟨nofun, nofun, nofun, nofun⟩, nofun⟩
  · rintro s a s' _ ⟨h, hkept⟩ hplaced hst
    have hturn := SendPage.turn h hplaced (step_spec hst)
    exact ⟨h.turn hturn, hkept.turn hturn⟩

theorem settled_calls (s : SendPage) (k : Nat) (result : Except String SendOutcome) :
    (settled typeError s k result).calls k = .finished result := by
  cases result with
  | error error => exact setCall_self ..
  | ok outcome =>
    simp only [settled]
    split <;> exact setCall_self ..

/-- An outcome that is not left in the record of its call leaves that as it was. -/
theorem settled_records {k : Nat} (outcome : SendOutcome) (hother : s.transfer ≠ some ⟨k, false⟩) :
    (settled typeError s k (.ok outcome)).records ⟨k, false⟩ = s.records ⟨k, false⟩ := by
  simp only [settled]
  split
  · rename_i r htransfer
    have hne : (⟨k, false⟩ : RecordId) ≠ r := fun hr => hother (by rw [htransfer, hr])
    exact Function.update_of_ne hne ..
  · rename_i hnone
    simp only [catchError, hnone]
    exact Function.update_of_ne (by simp) ..

/-- **The outcome of a call reaches its record exactly if** `state.transfer` refers to it when
the response is processed. -/
theorem kept_settle_iff (hs : (machine typeError).ReachableBy Placed s) {k : Nat}
    {outcome : SendOutcome}
    (hresult : (s.executions k).bind Execution.result = some (.ok outcome))
    (hst : s.step typeError (.settle k) = some s') :
    s'.Kept ↔ s.transfer = some ⟨k, false⟩ := by
  constructor
  · intro hkept
    by_contra hother
    simp only [step, hresult] at hst
    split at hst <;> cases hst
    rename_i hk heq
    cases heq
    -- the record of a call in `send_file` is sending, and the outcome is not
    obtain ⟨record, hrecord, hsending⟩ := (reachable_kept hs).1.sending k hk
    obtain ⟨record', hrecord', hstatus⟩ := hkept k outcome (settled_calls ..)
    rw [settled_records outcome hother, hrecord] at hrecord'
    cases hrecord'
    rw [hsending] at hstatus
    cases outcome <;> cases hstatus
  · intro htransfer
    have hplaced : s.Placed (.settle k) := by simp [Placed, misplaces, hresult, htransfer]
    obtain ⟨h, hkept⟩ := reachable_kept hs
    exact hkept.turn (SendPage.turn h hplaced (step_spec hst))

end SendPage
end IrohShare
