import IrohShare.ReceiveTruth

/-!
# How the receive view is left

The page leaves a record by a timer, and a value that reaches its size sets one.  A record
has a way out as long as a timer is set, such a value is coming, or its download may yet
publish its last one.  `strands` names the steps that take the last way out; without them
the view is empty when nothing more happens.
-/
namespace IrohShare
open Transition
namespace ReceiveView

variable {s s' : ReceiveView} {a : Action}

/-- The record shown has a way out. -/
def Held (s : ReceiveView) : Prop := ∀ shown, s.receive = some shown → s.left shown = true

theorem held_of_receive {shown : Shown} (h : s.receive = some shown) :
    s.Held ↔ s.left shown = true := by
  refine ⟨fun hheld => hheld shown h, fun hleft shown' hshown' => ?_⟩
  exact Option.some.inj (h.symm.trans hshown') ▸ hleft

theorem held_of_none (h : s.receive = none) : s.Held := by
  intro shown hshown
  rw [h] at hshown
  cases hshown

/-- What is coming when the channel holds something new. -/
theorem coming_of_unread (h : s.unread = true) : s.coming = s.events ++ [s.channel.value] := by
  rw [coming, if_pos h]

theorem coming_of_read (h : s.unread = false) : s.coming = s.events := by
  rw [coming, h, if_neg (by decide), List.append_nil]

/-- A way out depends on the timers, the values coming, and the download of the record. -/
theorem left_congr {shown shown' : Shown} (htimers : s'.timers = s.timers)
    (hcoming : s'.coming = s.coming) (htotal : shown'.receive.total = shown.receive.total)
    (hactive : s'.active shown'.transfer = s.active shown.transfer) :
    s'.left shown' = s.left shown := by
  simp only [left, ends, Receive.reached, htimers, hcoming, htotal, hactive]

/-- A handler that goes on keeps the record's way out. -/
theorem left_setTransfer {k : Nat} {t : Transfer} (h : s.active k = t.download.active)
    (shown : Shown) : (s.setTransfer k t).left shown = s.left shown := by
  refine left_congr rfl rfl rfl ?_
  rw [active_setTransfer]
  split
  · rename_i hk
    rw [hk, h]
  · rfl

theorem held_setTransfer {k : Nat} {t : Transfer} (h : s.active k = t.download.active) :
    (s.setTransfer k t).Held ↔ s.Held := by
  simp only [Held, left_setTransfer h]
  rfl

/-- The record shown is of another offer than the one accepted. -/
theorem left_accept (h : s.Sound) {k : Nat} {t : Transfer} (hnone : s.transfers k = none)
    {shown : Shown} (hshown : s.receive = some shown) :
    (s.setTransfer k t).left shown = s.left shown := by
  have hne : shown.transfer ≠ k := by
    rintro rfl
    obtain ⟨t', ht', -⟩ := h.shown shown hshown
    rw [hnone] at ht'
    cases ht'
  refine left_congr rfl rfl rfl ?_
  rw [active_setTransfer, if_neg hne]

/-- The task wakes: what it will forward was coming. -/
theorem left_wake (hunseen : s.reader.seen ≠ s.channel.version) (shown : Shown) :
    left { s with reader := { s.reader with seen := s.channel.version, phase := .woken } } shown =
      s.left shown := by
  have hunread : s.unread = true := by simp [unread, hunseen]
  exact left_congr rfl (by rw [coming_of_unread hunread, coming_of_unread rfl]) rfl rfl

theorem left_emit (hphase : s.reader.phase = .woken) (taken : List Nat) (shown : Shown) :
    left { s with
        reader := { seen := s.channel.version, taken }
        events := s.events ++ [s.channel.value] } shown = s.left shown := by
  have hunread : s.unread = true := by simp [unread, hphase]
  exact left_congr rfl
    (by rw [coming_of_unread hunread, coming_of_read (by simp [unread])]) rfl rfl

/-- What is coming after a value has been published. -/
theorem coming_publish (h : s.Sound) (value : Published) :
    coming { s with channel := s.channel.send value } = s.events ++ [value] := by
  refine coming_of_unread ?_
  have hle := h.reader.seen_le
  have hne : s.reader.seen ≠ s.channel.version + 1 := by omega
  simp [unread, Watch.Channel.send, hne]

theorem left_publish (h : s.Sound) (value : Published) (shown : Shown) :
    left { s with channel := s.channel.send value } shown =
      (!s.timers.isEmpty || (s.events ++ [value]).any (fun v => shown.receive.reached v.bytes) ||
        (shown.receive.total ≠ 0 && s.active shown.transfer)) := by
  rw [left, ends, coming_publish h]
  rfl

/-- Publishing takes the way out of the record shown exactly if it overwrites the value that
was it. -/
theorem held_publish (h : s.Sound) (value : Published) :
    Held { s with channel := s.channel.send value } ↔ s.overwrites value.bytes = false := by
  by_cases hnone : s.receive = none
  · exact iff_of_true (held_of_none hnone) (by simp [overwrites, hnone])
  · obtain ⟨shown, hshown⟩ := Option.ne_none_iff_exists'.mp hnone
    refine (held_of_receive (s := { s with channel := s.channel.send value }) hshown).trans
      ((Iff.of_eq (congrArg (· = true) (left_publish h value shown))).trans ?_)
    simp only [List.any_append, List.any_cons, List.any_nil, Bool.or_false, overwrites, hshown,
      Option.any_some]
    generalize s.timers.isEmpty = untimed
    generalize s.events.any _ = heard
    generalize shown.receive.reached value.bytes = reached
    generalize (decide (shown.receive.total ≠ 0) && _) = downloading
    revert untimed heard reached downloading
    decide

/-- Whether a value overwrites the way out depends on the download of the record, if that
may yet publish a value that reaches its size. -/
theorem overwrites_setTransfer {k : Nat} {t : Transfer} {bytes : UInt64}
    (h : ∀ shown, s.receive = some shown → shown.transfer = k → shown.receive.total ≠ 0 →
      shown.receive.reached bytes = false → s.active k = t.download.active) :
    (s.setTransfer k t).overwrites bytes = s.overwrites bytes := by
  cases hreceive : s.receive with
  | none => simp [overwrites, setTransfer, hreceive]
  | some shown =>
    have hset : (s.setTransfer k t).receive = some shown := hreceive
    simp only [overwrites, hreceive, hset, Option.any_some, active_setTransfer]
    by_cases hk : shown.transfer = k
    · rw [if_pos hk]
      by_cases htotal : shown.receive.total = 0
      · simp [htotal, setTransfer]
      · cases hreached : shown.receive.reached bytes with
        | true => simp
        | false => rw [hk, h shown hreceive hk htotal hreached]; rfl
    · rw [if_neg hk]
      rfl

/-- A handler fails: the record shown keeps a way out exactly if it is another one, or ends
without its download. -/
theorem held_fail (hheld : s.Held) {k : Nat} {t : Transfer}
    (ht : t.download.active = false) :
    (s.setTransfer k t).Held ↔
      (s.receive.any fun shown => shown.transfer = k && !s.ends shown.receive) = false := by
  cases hreceive : s.receive with
  | none => exact iff_of_true (held_of_none hreceive) rfl
  | some shown =>
    have hset : (s.setTransfer k t).receive = some shown := hreceive
    rw [held_of_receive hset, Option.any_some]
    by_cases hk : shown.transfer = k
    · have hleft : (s.setTransfer k t).left shown = s.ends shown.receive := by
        rw [left, active_setTransfer, if_pos hk, ht, Bool.and_false, Bool.or_false]
        rfl
      simp [hleft, hk]
    · have hleft : (s.setTransfer k t).left shown = s.left shown := by
        refine left_congr rfl rfl rfl ?_
        rw [active_setTransfer, if_neg hk]
      simp [hleft, hheld shown hreceive, hk]

/-- A value that does not reach the record's size is delivered. -/
theorem ends_deliver {u : ReceiveView} {value : Published} {events : List Published}
    {receive : Receive}
    (hevents : s.events = value :: events) (hreached : receive.reached value.bytes = false)
    (hcoming : u.coming = events ++ if s.unread then [s.channel.value] else [])
    (htimers : u.timers = s.timers) : u.ends receive = s.ends receive := by
  simp only [ends, htimers, hcoming]
  simp only [coming, hevents, List.cons_append, List.any_cons, hreached, Bool.false_or]

/-- **A step keeps a way out of the record shown exactly if it does not strand it.** -/
theorem held_step_iff (h : s.Sound) (hheld : s.Held) (hst : Step s a s') :
    s'.Held ↔ s.strands a = false := by
  cases hst with
  | @accept k offer hnone =>
    exact iff_of_true
      (fun shown hshown => (left_accept h hnone hshown).trans (hheld shown hshown)) rfl
  | @respond k t ht _ =>
    rw [@held_of_receive _ ⟨k, .new t.offer⟩ rfl]
    have hactive : s.active k = t.download.active := active_of_transfer ht
    have hleft : (s.setTransfer k { t with responded := true }).left ⟨k, .new t.offer⟩ =
        s.left ⟨k, .new t.offer⟩ :=
      left_setTransfer (t := { t with responded := true }) hactive _
    refine (Iff.of_eq (congrArg (· = true) hleft)).trans ?_
    simp [strands, ht]
  | decide ht hdownload | report ht hdownload | exportFile ht hdownload =>
    have hgoing : s.active _ = true := active_of_download ht hdownload
    exact iff_of_true ((held_setTransfer hgoing).mpr hheld) rfl
  | fail ht hactive hsaved => exact held_fail hheld rfl
  | @progress k t bytes ht hdownload =>
    refine (held_publish (h.reporting ht hdownload) _).trans ?_
    have hgoing : s.active k = true := active_of_download ht hdownload
    rw [overwrites_setTransfer fun _ _ _ _ _ => hgoing]
    rfl
  | @finish k t ht hdownload =>
    refine (held_publish (h.finished ht) _).trans ?_
    rw [overwrites_setTransfer fun shown hshown hk htotal hreached => ?_]
    · simp [strands, ht]
    · -- the last value of its own download reaches the size of the record
      obtain ⟨t', ht', hsize⟩ := h.shown shown hshown
      obtain rfl : t = t' := Option.some.inj (ht.symm.trans (hk ▸ ht'))
      have htrue : shown.receive.reached t.offer.filesize = true := by
        rw [← hsize]
        exact (reached_total _).mpr htotal
      rw [htrue] at hreached
      cases hreached
  | wake _ hunseen =>
    exact iff_of_true (fun shown hshown => (left_wake hunseen shown).trans (hheld shown hshown)) rfl
  | emit hphase =>
    exact iff_of_true
      (fun shown hshown => (left_emit hphase _ shown).trans (hheld shown hshown)) rfl
  | unheard _ hnone => exact iff_of_true (held_of_none hnone) rfl
  | @completes value events shown _ hshown _ =>
    refine iff_of_true ?_ rfl
    rw [held_of_receive rfl]
    simp [left, ends]
  | @advances value events shown hevents hshown hreached =>
    refine iff_of_true ?_ rfl
    rw [held_of_receive rfl, ← hheld shown hshown]
    have hends := ends_deliver (u := { s with events }) hevents hreached rfl rfl
    simp only [left, ← hends]
    rfl
  | fire _ => exact iff_of_true (held_of_none rfl) rfl

/-! ## A record without a way out -/

theorem left_eq_false {shown : Shown} : s.left shown = false ↔
    s.timers = [] ∧ (∀ value ∈ s.coming, shown.receive.reached value.bytes = false) ∧
      (shown.receive.total ≠ 0 → s.active shown.transfer = false) := by
  simp [left, ends, and_assoc]

theorem mem_coming {value : Published} (h : value ∈ s.events) : value ∈ s.coming :=
  List.mem_append_left _ h

theorem stuck_setTransfer {shown : Shown} (hstuck : s.left shown = false) {k : Nat} {t : Transfer}
    (hactive : t.download.active = true → s.active k = true) :
    (s.setTransfer k t).left shown = false := by
  obtain ⟨htimers, hcoming, hdone⟩ := left_eq_false.mp hstuck
  refine left_eq_false.mpr ⟨htimers, hcoming, fun htotal => ?_⟩
  rw [active_setTransfer]
  split
  · rename_i hk
    rw [← Bool.not_eq_true]
    intro hgoing
    have hsame := hdone htotal
    rw [hk, hactive hgoing] at hsame
    cases hsame
  · exact hdone htotal

theorem stuck_publish (h : s.Sound) {shown : Shown} (hstuck : s.left shown = false)
    {value : Published} (hvalue : shown.receive.reached value.bytes = false) :
    left { s with channel := s.channel.send value } shown = false := by
  obtain ⟨htimers, hcoming, hdone⟩ := left_eq_false.mp hstuck
  refine left_eq_false.mpr ⟨htimers, ?_, hdone⟩
  rw [coming_publish h]
  intro value' hmem
  rcases List.mem_append.mp hmem with hmem | hmem
  · exact hcoming value' (mem_coming hmem)
  · rw [List.mem_singleton.mp hmem]
    exact hvalue

/-- The step publishes no value that reaches the size of the record. -/
def Quiet (s : ReceiveView) (receive : Receive) (a : Action) : Prop :=
  (∀ k bytes, a = .progress k bytes → receive.reached bytes = false) ∧
    ∀ k t, a = .finish k → s.transfers k = some t → receive.reached t.offer.filesize = false

/-- **A record without a way out stays**, until another offer brings a response or a value. -/
theorem stuck_step (h : s.Sound) (hst : Step s a s') {shown : Shown}
    (hshown : s.receive = some shown) (hstuck : s.left shown = false)
    (hquiet : s.Quiet shown.receive a) (hrespond : ∀ k, a ≠ .respond k) :
    ∃ shown', s'.receive = some shown' ∧ shown'.transfer = shown.transfer ∧
      shown'.receive.total = shown.receive.total ∧ s'.left shown' = false := by
  obtain ⟨htimers, hcoming, hdone⟩ := left_eq_false.mp hstuck
  cases hst with
  | respond => exact absurd rfl (hrespond _)
  | @accept k offer hnone =>
    exact ⟨shown, hshown, rfl, rfl, (left_accept h hnone hshown).trans hstuck⟩
  | decide ht hdownload | report ht hdownload | exportFile ht hdownload =>
    have hgoing : s.active _ = true := active_of_download ht hdownload
    exact ⟨shown, hshown, rfl, rfl, stuck_setTransfer hstuck fun _ => hgoing⟩
  | fail => exact ⟨shown, hshown, rfl, rfl, stuck_setTransfer hstuck nofun⟩
  | @progress k t bytes ht hdownload =>
    have hgoing : s.active k = true := active_of_download ht hdownload
    have hstill : (s.setTransfer k { t with download := .reporting }).left shown = false :=
      stuck_setTransfer hstuck fun _ => hgoing
    exact ⟨shown, hshown, rfl, rfl,
      stuck_publish (h.reporting ht hdownload) hstill (hquiet.1 k bytes rfl)⟩
  | @finish k t ht hdownload =>
    exact ⟨shown, hshown, rfl, rfl,
      stuck_publish (h.finished ht) (stuck_setTransfer hstuck nofun) (hquiet.2 k t rfl ht)⟩
  | wake _ hunseen => exact ⟨shown, hshown, rfl, rfl, (left_wake hunseen shown).trans hstuck⟩
  | emit hphase => exact ⟨shown, hshown, rfl, rfl, (left_emit hphase _ shown).trans hstuck⟩
  | unheard _ hnone =>
    rw [hnone] at hshown
    cases hshown
  | completes hevents hshown' hreached =>
    obtain rfl := Option.some.inj (hshown.symm.trans hshown')
    rw [hcoming _ (mem_coming (hevents ▸ List.mem_cons_self))] at hreached
    cases hreached
  | @advances value events shown' hevents hshown' hreached =>
    obtain rfl := Option.some.inj (hshown.symm.trans hshown')
    refine ⟨_, rfl, rfl, rfl, left_eq_false.mpr ⟨htimers, fun value' hmem => ?_, hdone⟩⟩
    refine hcoming value' ?_
    rw [coming, hevents, List.cons_append]
    exact List.mem_cons_of_mem _ hmem
  | fire hfire =>
    rw [hfire] at htimers
    cases htimers

/-- **The receive view never gets stuck.**  If no step takes the last way out of the record
shown, the view is empty once nothing more happens. -/
theorem receive_left (hs : machine.ReachableBy Unstranded s) (hquiet : s.Quiescent) :
    s.receive = none := by
  have hheld : s.Held := by
    refine hs.invariant (I := Held) ?_ ?_
    · rintro s rfl
      exact held_of_none rfl
    · intro s a s' hr hheld hunstranded hst
      have hsound := reachable_sound hr
      exact (held_step_iff hsound hheld (step_spec hsound.opened hst)).mpr hunstranded
  cases hreceive : s.receive with
  | none => rfl
  | some shown =>
    obtain ⟨t, ht, -⟩ := (reachable_sound hs).shown shown hreceive
    have hleft := hheld shown hreceive
    rw [left, ends, coming_of_read hquiet.forwarded, hquiet.events, hquiet.timers,
      active_of_transfer ht, (hquiet.transfers _ t ht).1] at hleft
    simp at hleft

/-- An offer that is not accepted has no transfer. -/
theorem transfers_of_unaccepted {k : Nat} (hk : s.transfers k = none)
    (ha : ∀ offer, a ≠ .accept k offer) (hst : Step s a s') : s'.transfers k = none := by
  cases hst with
  | @accept j offer _ =>
    have hne : k ≠ j := by
      rintro rfl
      exact ha offer rfl
    exact (Function.update_of_ne hne ..).trans hk
  | @respond j _ hj _ | @decide j _ hj _ | @progress j _ _ hj _ | @report j _ hj _
  | @exportFile j _ hj _ | @finish j _ hj _ | @fail j _ hj _ _ =>
    have hne : k ≠ j := by
      rintro rfl
      rw [hk] at hj
      cases hj
    exact (Function.update_of_ne hne ..).trans hk
  | _ => exact hk

theorem exec_unaccepted {k : Nat} (as : List Action) (h : s.Sound) (hk : s.transfers k = none)
    (has : ∀ offer, .accept k offer ∉ as) (hrun : machine.exec s as = some s') :
    s'.transfers k = none := by
  induction as generalizing s with
  | nil => exact Option.some.inj hrun ▸ hk
  | cons a as ih =>
    rw [Machine.exec_cons, Option.bind_eq_some_iff] at hrun
    obtain ⟨t, hst, hrest⟩ := hrun
    have hstep := step_spec h.opened hst
    refine ih (h.step hstep) (transfers_of_unaccepted hk ?_ hstep) ?_ hrest
    · rintro offer rfl
      exact has offer List.mem_cons_self
    · exact fun offer hmem => has offer (List.mem_cons_of_mem _ hmem)

theorem receive_left_pair :
    ∃ s, machine.exec {} (pairRun ++ [.fire]) = some s ∧ s.Quiescent ∧ s.receive = none := by
  have hinit : machine.ReachableBy Unstranded {} := .init rfl
  have hmeets : machine.Meets Unstranded {} (pairRun ++ [.fire]) := by decide
  refine ⟨_, rfl, ?quiet, receive_left (hinit.exec hmeets rfl) ?quiet⟩
  refine ⟨fun k t ht => ?_, rfl, rfl, rfl⟩
  by_cases hk : k = 0 ∨ k = 1
  · rcases hk with rfl | rfl <;> cases ht <;> exact ⟨rfl, rfl⟩
  · obtain ⟨h0, h1⟩ := not_or.mp hk
    have hnone := exec_unaccepted (k := k) (pairRun ++ [.fire]) (reachable_sound hinit) rfl
      (by simp [pairRun, openRun, forwardRun, h0, h1]) rfl
    cases hnone.symm.trans ht

/-- The download of an empty file. -/
def emptyRun : List Action :=
  [.accept 0 { sampleOffer 0 with filesize := 0 }, .respond 0, .decide 0, .exportFile 0,
    .finish 0] ++ forwardRun

/-- The file is saved, and the page says that it is being received. -/
theorem emptyRun_stays :
    ∃ s shown, machine.exec {} emptyRun = some s ∧ machine.Reachable s ∧ s.Quiescent ∧
      s.saved 0 = true ∧ s.receive = some shown ∧ shown.receive.complete = false := by
  have hinit : machine.Reachable {} := .init rfl
  refine ⟨_, _, rfl, hinit.exec (rfl : machine.exec {} emptyRun = some _), ?_, rfl, rfl, rfl⟩
  refine ⟨fun k t ht => ?_, rfl, rfl, rfl⟩
  by_cases hk : k = 0
  · subst hk
    cases ht
    exact ⟨rfl, rfl⟩
  · have hnone := exec_unaccepted (k := k) emptyRun (reachable_sound hinit) rfl
      (by simp [emptyRun, forwardRun, hk]) rfl
    cases hnone.symm.trans ht

end ReceiveView
end IrohShare
