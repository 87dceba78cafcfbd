import IrohShare.ReceiveView

/-!
# What the receive view tells

Two things can be asked of `state.receive`: that it is complete only when its file is at
its place, and that the page leaves it in the end.  Both rest on a number that reaches the
record's size.  The first holds if that number is always the record's own last one, and no
timer outlives its record; the second if the step that takes the last way out of a record
never happens.
-/
namespace IrohShare
open Transition

/-! ## The numbers -/

theorem jsNumber_pos {n : UInt64} (h : n ≠ 0) : 0 < jsNumber n := by
  have hpos : n.toNat ≠ 0 := fun hzero => h (UInt64.toNat_inj.mp hzero)
  have hunit : 2 ^ (n.toNat.log2 - 52) ≤ n.toNat :=
    calc 2 ^ (n.toNat.log2 - 52) ≤ 2 ^ n.toNat.log2 :=
          Nat.pow_le_pow_right (by decide) (Nat.sub_le _ _)
      _ ≤ n.toNat := Nat.log2_self_le hpos
  have hlow : 0 < n.toNat / 2 ^ (n.toNat.log2 - 52) :=
    Nat.div_pos hunit (Nat.pow_pos (by decide))
  unfold jsNumber
  dsimp only
  split
  · exact Nat.mul_pos (Nat.succ_pos _) (Nat.pow_pos (by decide))
  · exact Nat.mul_pos hlow (Nat.pow_pos (by decide))

@[simp] theorem jsNumber_zero : jsNumber 0 = 0 := by decide

/-- The size itself completes a record, unless it is zero; then nothing does. -/
theorem reached_total (receive : Receive) :
    receive.reached receive.total = (receive.total ≠ 0) := by
  by_cases hzero : receive.total = 0
  · simp [Receive.reached, hzero]
  · simp [Receive.reached, hzero, jsNumber_pos hzero]

namespace ReceiveView

variable {s s' : ReceiveView} {a : Action}

/-! ## Every run -/

theorem saved_setTransfer (s : ReceiveView) (k j : Nat) (t : Transfer) :
    (s.setTransfer k t).saved j = if j = k then t.download.saved else s.saved j := by
  by_cases hj : j = k <;> simp [saved, setTransfer, hj]

theorem active_setTransfer (s : ReceiveView) (k j : Nat) (t : Transfer) :
    (s.setTransfer k t).active j = if j = k then t.download.active else s.active j := by
  by_cases hj : j = k <;> simp [active, setTransfer, hj]

/-- The response of transfer `k` has been processed. -/
def answered (s : ReceiveView) (k : Nat) : Bool := (s.transfers k).any Transfer.responded

theorem answered_setTransfer (s : ReceiveView) (k j : Nat) (t : Transfer) :
    (s.setTransfer k t).answered j = if j = k then t.responded else s.answered j := by
  by_cases hj : j = k <;> simp [answered, setTransfer, hj]

theorem answered_of_transfer {k : Nat} {t : Transfer} (ht : s.transfers k = some t) :
    s.answered k = t.responded := by
  rw [answered, ht, Option.any_some]

theorem saved_of_transfer {k : Nat} {t : Transfer} (ht : s.transfers k = some t) :
    s.saved k = t.download.saved := by
  rw [saved, ht, Option.any_some]

theorem active_of_transfer {k : Nat} {t : Transfer} (ht : s.transfers k = some t) :
    s.active k = t.download.active := by
  rw [active, ht, Option.any_some]

theorem active_of_download {k : Nat} {t : Transfer} (ht : s.transfers k = some t)
    {download : DownloadPhase} (hdownload : t.download = download) :
    s.active k = download.active := by
  rw [active_of_transfer ht, hdownload]

/-- What holds in every state: the task is between two turns of its loop, a final value
comes from a download that has exported its file, a record is that of its offer, and
timers are set for records only. -/
structure Sound (s : ReceiveView) : Prop where
  reader : s.reader.Ok s.channel 0
  phase : s.reader.phase = .waiting ∨ s.reader.phase = .woken
  opened : s.channel.closed = false
  value : s.channel.value.final = true → ∃ k, s.channel.value.transfer = some k ∧ s.saved k = true
  events : ∀ value ∈ s.events, value.final = true →
    ∃ k, value.transfer = some k ∧ s.saved k = true
  shown : ∀ shown, s.receive = some shown →
    ∃ t, s.transfers shown.transfer = some t ∧ shown.receive.total = t.offer.filesize
  answered : ∀ shown, s.receive = some shown → s.answered shown.transfer = true
  timers : ∀ k ∈ s.timers, s.answered k = true

/-- A transfer goes on. -/
theorem Sound.setTransfer (h : s.Sound) {k : Nat} {t' : Transfer}
    (hkeep : ∀ t, s.transfers k = some t → t'.offer = t.offer ∧
      (t.download.saved = true → t'.download.saved = true) ∧
      (t.responded = true → t'.responded = true)) :
    (s.setTransfer k t').Sound := by
  have hsaved : ∀ j, s.saved j = true → (s.setTransfer k t').saved j = true := by
    intro j hj
    rw [saved_setTransfer]
    split
    · rename_i hjk
      obtain ⟨t, ht, hdownload⟩ := Option.any_eq_true .. |>.mp (hjk ▸ hj)
      exact (hkeep t ht).2.1 hdownload
    · exact hj
  have hanswered : ∀ j, s.answered j = true → (s.setTransfer k t').answered j = true := by
    intro j hj
    rw [answered_setTransfer]
    split
    · rename_i hjk
      obtain ⟨t, ht, hresponded⟩ := Option.any_eq_true .. |>.mp (hjk ▸ hj)
      exact (hkeep t ht).2.2 hresponded
    · exact hj
  refine { h with value := fun hfinal => ?_, events := fun value hmem hfinal => ?_, shown := ?_,
                  answered := fun shown hshown => hanswered _ (h.answered shown hshown),
                  timers := fun j hj => hanswered j (h.timers j hj) }
  · obtain ⟨j, hj, hsj⟩ := h.value hfinal
    exact ⟨j, hj, hsaved j hsj⟩
  · obtain ⟨j, hj, hsj⟩ := h.events value hmem hfinal
    exact ⟨j, hj, hsaved j hsj⟩
  · intro shown hshown
    obtain ⟨t, ht, htotal⟩ := h.shown shown hshown
    by_cases hk : shown.transfer = k
    · refine ⟨t', by simp [ReceiveView.setTransfer, hk], ?_⟩
      rw [htotal, (hkeep t (hk ▸ ht)).1]
    · exact ⟨t, by simpa [ReceiveView.setTransfer, hk] using ht, htotal⟩

/-- The handler of a transfer goes on. -/
theorem Sound.setDownload (h : s.Sound) {k : Nat} {t : Transfer} (ht : s.transfers k = some t)
    {download : DownloadPhase} (hsaved : t.download.saved = true → download.saved = true) :
    (s.setTransfer k { t with download }).Sound := by
  refine h.setTransfer fun t' ht' => ?_
  cases ht.symm.trans ht'
  exact ⟨rfl, hsaved, id⟩

/-- The first half of `send_progress`, up to what it publishes. -/
theorem Sound.reporting (h : s.Sound) {k : Nat} {t : Transfer} (ht : s.transfers k = some t)
    (hdownload : t.download = .streaming) :
    (s.setTransfer k { t with download := .reporting }).Sound :=
  h.setDownload ht (by simp [hdownload, DownloadPhase.saved])

/-- `send_replace`, up to what it publishes. -/
theorem Sound.finished (h : s.Sound) {k : Nat} {t : Transfer} (ht : s.transfers k = some t) :
    (s.setTransfer k { t with download := .finished }).Sound :=
  h.setDownload ht fun _ => rfl

/-- A value is published. -/
theorem Sound.publish (h : s.Sound) {value : Published}
    (hvalue : value.final = true → ∃ k, value.transfer = some k ∧ s.saved k = true) :
    Sound { s with channel := s.channel.send value } :=
  { h with reader := h.reader.send h.opened value, value := hvalue }

theorem Sound.step (h : s.Sound) (hst : Step s a s') : s'.Sound := by
  cases hst with
  | accept hnone => exact h.setTransfer fun t ht => by rw [hnone] at ht; cases ht
  | @respond k t ht _ =>
    have hset : (s.setTransfer k { t with responded := true }).Sound :=
      h.setTransfer fun t' ht' => by
        cases ht.symm.trans ht'
        exact ⟨rfl, id, fun _ => rfl⟩
    refine { hset with shown := fun shown hshown => ?_, answered := fun shown hshown => ?_ }
    · cases hshown
      exact ⟨{ t with responded := true }, by simp [ReceiveView.setTransfer], rfl⟩
    · cases hshown
      exact (answered_setTransfer s k k _).trans (if_pos rfl)
  | decide ht hdownload | report ht hdownload | exportFile ht hdownload =>
    exact h.setDownload ht (by simp [hdownload, DownloadPhase.saved])
  | fail ht _ hsaved => exact h.setDownload ht (by simp [hsaved])
  | @progress k t bytes ht hdownload =>
    exact (h.reporting ht hdownload).publish fun hfinal => by cases hfinal
  | @finish k t ht hdownload =>
    exact (h.finished ht).publish fun _ => ⟨k, rfl, by rw [saved_setTransfer, if_pos rfl]; rfl⟩
  | wake hphase hunseen =>
    have hwake : s.reader.wake s.channel =
        some { s.reader with seen := s.channel.version, phase := .woken } := by
      simp [Watch.Reader.wake, Watch.Channel.changed, hphase, hunseen]
    exact { h with reader := h.reader.wake hwake, phase := .inr rfl }
  | emit hphase =>
    have htake : s.reader.take s.channel = some (s.channel.value,
        { seen := s.channel.version, phase := .working,
          taken := s.reader.taken ++ [s.channel.version] }) := by
      simp [Watch.Reader.take, hphase]
    refine { h with
      reader := (h.reader.take htake).2.resume rfl
      phase := .inl rfl
      events := fun value hmem => ?_ }
    rcases List.mem_append.mp hmem with hmem | hmem
    · exact h.events value hmem
    · rw [List.mem_singleton.mp hmem]
      exact h.value
  | unheard hevents _ =>
    exact { h with
      events := fun value hmem => h.events value (hevents ▸ List.mem_cons_of_mem _ hmem) }
  | @completes value events shown hevents hshown _ =>
    refine { h with
      events := fun value hmem => h.events value (hevents ▸ List.mem_cons_of_mem _ hmem)
      shown := ?_
      answered := ?_
      timers := fun k hk => ?_ }
    · rintro _ ⟨⟩
      exact h.shown shown hshown
    · rintro _ ⟨⟩
      exact h.answered shown hshown
    · rcases List.mem_append.mp hk with hk | hk
      · exact h.timers k hk
      · rw [List.mem_singleton.mp hk]
        exact h.answered shown hshown
  | @advances value events shown hevents hshown _ =>
    refine { h with
      events := fun value hmem => h.events value (hevents ▸ List.mem_cons_of_mem _ hmem)
      shown := ?_
      answered := ?_ }
    · rintro _ ⟨⟩
      exact h.shown shown hshown
    · rintro _ ⟨⟩
      exact h.answered shown hshown
  | @fire k timers htimers =>
    exact { h with
      shown := fun shown hshown => by cases hshown
      answered := fun shown hshown => by cases hshown
      timers := fun j hj => h.timers j (htimers ▸ List.mem_cons_of_mem k hj) }

theorem reachable_sound {C : ReceiveView → Action → Prop} (hs : machine.ReachableBy C s) :
    s.Sound := by
  refine hs.invariant (I := Sound) ?_ ?_
  · rintro s rfl
    exact ⟨.new (Nat.le_refl 0), .inl rfl, rfl, nofun, nofun, nofun, nofun, nofun⟩
  · intro s a s' _ h _ hst
    exact h.step (step_spec h.opened hst)

/-! ## A record and its own file -/

/-- A complete record is that of a file at its place, and every timer set is that of the
record shown. -/
structure Truthful (s : ReceiveView) : Prop where
  complete : ∀ shown, s.receive = some shown → shown.receive.complete = true →
    s.saved shown.transfer = true
  timers : ∀ shown, s.receive = some shown → ∀ k ∈ s.timers, k = shown.transfer

/-- A transfer goes on; its file stays where it is. -/
theorem Truthful.setTransfer (ht : s.Truthful) {k : Nat} {t' : Transfer}
    (hkeep : s.saved k = true → t'.download.saved = true) : (s.setTransfer k t').Truthful := by
  refine ⟨fun shown hshown hcomplete => ?_, ht.timers⟩
  have hsaved := ht.complete shown hshown hcomplete
  rw [saved_setTransfer]
  split
  · rename_i hk
    exact hkeep (hk ▸ hsaved)
  · exact hsaved

/-- The handler of a transfer goes on. -/
theorem Truthful.setDownload (ht : s.Truthful) {k : Nat} {t : Transfer}
    (hk : s.transfers k = some t) {download : DownloadPhase}
    (hsaved : t.download.saved = true → download.saved = true) :
    (s.setTransfer k { t with download }).Truthful :=
  ht.setTransfer fun hbefore => hsaved (saved_of_transfer hk ▸ hbefore)

/-- What a download publishes does not touch the page. -/
theorem Truthful.publish (ht : s.Truthful) (value : Published) :
    Truthful { s with channel := s.channel.send value } := ⟨ht.complete, ht.timers⟩

/-- A record that has just been made is truthful exactly if no timer is set: a timer is set
for a record, and this offer has had none yet. -/
theorem Sound.truthful_respond (h : s.Sound) {k : Nat} {t : Transfer}
    (hk : s.transfers k = some t) (hresponded : t.responded = false) :
    Truthful { s.setTransfer k { t with responded := true } with
      receive := some ⟨k, .new t.offer⟩ } ↔ s.timers = [] := by
  constructor
  · intro ht'
    refine List.eq_nil_iff_forall_not_mem.mpr fun j hj => ?_
    obtain rfl : j = k := ht'.timers _ rfl j hj
    have hanswered := h.timers j hj
    rw [answered_of_transfer hk, hresponded] at hanswered
    cases hanswered
  · intro hnil
    refine ⟨?_, fun _ _ j hj => ?_⟩
    · rintro _ ⟨⟩
      nofun
    · have hmem : j ∈ s.timers := hj
      rw [hnil] at hmem
      cases hmem

/-- A record that has just been completed is truthful exactly if its file is at its place. -/
theorem Truthful.completes_iff (ht : s.Truthful) {shown : Shown} (hshown : s.receive = some shown)
    (bytes : UInt64) (events : List Published) :
    Truthful { s with
      events
      receive := some ⟨shown.transfer,
        { shown.receive with downloaded := bytes, complete := true }⟩
      timers := s.timers ++ [shown.transfer] } ↔ s.saved shown.transfer = true := by
  refine ⟨fun ht' => ?_, fun hsaved => ⟨?_, ?_⟩⟩
  · exact ht'.complete ⟨shown.transfer,
      { shown.receive with downloaded := bytes, complete := true }⟩ rfl rfl
  · rintro _ ⟨⟩ -
    exact hsaved
  · rintro _ ⟨⟩ k hmem
    rcases List.mem_append.mp hmem with hmem | hmem
    · exact ht.timers shown hshown k hmem
    · exact List.mem_singleton.mp hmem

/-- The file of the record shown is at its place when the last value of its own download
arrives. -/
theorem Sound.saved_of_read (h : s.Sound) {value : Published} {events : List Published}
    {shown : Shown} (hevents : s.events = value :: events) (hshown : s.receive = some shown)
    (hreached : shown.receive.reached value.bytes = true) (hread : s.misread .deliver = false) :
    s.saved shown.transfer = true := by
  obtain ⟨hown, hfinal⟩ : value.transfer = some shown.transfer ∧ value.final = true := by
    simpa [misread, hevents, hshown, hreached] using hread
  obtain ⟨k, hk, hsk⟩ := h.events value (hevents ▸ List.mem_cons_self) hfinal
  exact Option.some.inj (hk.symm.trans hown) ▸ hsk

/-- **A step keeps the records truthful exactly if** it makes no record while a timer is
set, and completes one with another value than its last only when its file is at its
place. -/
theorem Truthful.step_iff (ht : s.Truthful) (h : s.Sound) (hst : Step s a s') :
    s'.Truthful ↔ s.crosses a = false ∧ (s.misread a = true →
      ∀ shown, s.receive = some shown → s.saved shown.transfer = true) := by
  cases hst with
  | respond hk hresponded =>
    exact (h.truthful_respond hk hresponded).trans (by simp [crosses, misread])
  | @completes value events shown hevents hshown hreached =>
    refine (ht.completes_iff hshown value.bytes events).trans ⟨fun hsaved => ⟨rfl, ?_⟩, ?_⟩
    · intro _ shown' hshown'
      exact Option.some.inj (hshown.symm.trans hshown') ▸ hsaved
    · rintro ⟨-, hsaved⟩
      cases hread : s.misread .deliver with
      | true => exact hsaved hread shown hshown
      | false => exact h.saved_of_read hevents hshown hreached hread
  | @advances value events shown hevents hshown hreached =>
    refine iff_of_true ⟨?_, ?_⟩ ⟨rfl, fun hmisread => ?_⟩
    · rintro _ ⟨⟩ hcomplete
      exact ht.complete shown hshown hcomplete
    · rintro _ ⟨⟩
      exact ht.timers shown hshown
    · simp [misread, hevents, hshown, hreached] at hmisread
  | unheard hevents hnone =>
    refine iff_of_true ⟨ht.complete, ht.timers⟩ ⟨rfl, fun _ shown hshown => ?_⟩
    rw [hnone] at hshown
    cases hshown
  | accept hnone =>
    refine iff_of_true (ht.setTransfer fun hsaved => ?_) ⟨rfl, nofun⟩
    rw [saved, hnone] at hsaved
    cases hsaved
  | decide hk hdownload | report hk hdownload =>
    exact iff_of_true (ht.setDownload hk (by simp [hdownload, DownloadPhase.saved])) ⟨rfl, nofun⟩
  | exportFile hk _ => exact iff_of_true (ht.setDownload hk fun _ => rfl) ⟨rfl, nofun⟩
  | fail hk _ hunsaved => exact iff_of_true (ht.setDownload hk (by simp [hunsaved])) ⟨rfl, nofun⟩
  | @progress k t bytes hk hdownload =>
    have hset : (s.setTransfer k { t with download := .reporting }).Truthful :=
      ht.setDownload hk (by simp [hdownload, DownloadPhase.saved])
    exact iff_of_true (hset.publish _) ⟨rfl, nofun⟩
  | @finish k t hk _ =>
    have hset : (s.setTransfer k { t with download := .finished }).Truthful :=
      ht.setDownload hk fun _ => rfl
    exact iff_of_true (hset.publish _) ⟨rfl, nofun⟩
  | wake | emit => exact iff_of_true ⟨ht.complete, ht.timers⟩ ⟨rfl, nofun⟩
  | fire _ => exact iff_of_true ⟨nofun, nofun⟩ ⟨rfl, nofun⟩

/-- **The receive view tells the truth.**  If every value that completes the record shown is
the last one of its own download, and no record is made while a timer is set, then a record
is complete only when the file of its offer has been exported, and a timer that fires
empties the view of the offer whose completion set it. -/
theorem receive_truthful (hs : machine.ReachableBy Apart s) :
    (∀ shown, s.receive = some shown → shown.receive.complete = true →
      s.saved shown.transfer = true) ∧
    (∀ s', s.step .fire = some s' → ∀ shown, s.receive = some shown →
      s.timers.head? = some shown.transfer ∧ s'.receive = none) := by
  have htruthful : s.Truthful := by
    refine hs.invariant (I := Truthful) ?_ ?_
    · rintro s rfl
      exact ⟨nofun, nofun⟩
    · intro s a s' hr ht hapart hst
      have hsound := reachable_sound hr
      refine (ht.step_iff hsound (step_spec hsound.opened hst)).mpr ⟨hapart.2, fun hmisread => ?_⟩
      rw [hapart.1] at hmisread
      cases hmisread
  refine ⟨htruthful.complete, fun s' hst shown hshown => ?_⟩
  cases step_spec (reachable_sound hs).opened hst with
  | @fire k timers htimers =>
    refine ⟨?_, rfl⟩
    rw [htimers, List.head?_cons, htruthful.timers shown hshown k (htimers ▸ List.mem_cons_self)]

/-- An offer of ten bytes. -/
def sampleOffer (k : Nat) : IncomingOffer :=
  { id := k, filename := "notes.txt", filesize := 10, sender := "anna" }

/-- Offer `k` is accepted and shown, and its download begins. -/
def openRun (k : Nat) : List Action := [.accept k (sampleOffer k), .respond k, .decide k]

/-- The task forwards the value in the channel, and the page takes it. -/
def forwardRun : List Action := [.wake, .emit, .deliver]

/-- Two offers are downloaded together; the second is shown once the first is left. -/
def pairRun : List Action :=
  openRun 0 ++ [.accept 1 (sampleOffer 1), .decide 1, .progress 0 4] ++ forwardRun ++
    [.report 0, .exportFile 0, .finish 0] ++ forwardRun ++ [.fire, .respond 1] ++
    [.exportFile 1, .finish 1] ++ forwardRun

theorem receive_truthful_pair :
    ∃ s shown, machine.exec {} pairRun = some s ∧ s.receive = some shown ∧
      shown.transfer = 1 ∧ shown.receive.complete = true ∧ s.saved 1 = true ∧
      s.timers.head? = some 1 := by
  have hstart : machine.ReachableBy Apart {} := .init rfl
  have hmeets : machine.Meets Apart {} pairRun := by decide
  have hs := hstart.exec hmeets rfl
  have htrue := receive_truthful hs
  exact ⟨_, _, rfl, rfl, rfl, rfl, htrue.1 _ rfl rfl, (htrue.2 _ rfl _ rfl).1⟩

/-- The download reports the whole size, and then its export fails. -/
def earlyRun : List Action := openRun 0 ++ [.progress 0 10] ++ forwardRun ++ [.report 0, .fail 0]

theorem earlyRun_shows_unsaved :
    ∃ s shown, machine.exec {} earlyRun = some s ∧ machine.Reachable s ∧
      s.receive = some shown ∧ shown.receive.complete = true ∧
      s.saved shown.transfer = false := by
  have hstart : machine.Reachable {} := .init rfl
  exact ⟨_, _, rfl, hstart.exec (rfl : machine.exec {} earlyRun = some _), rfl, rfl, rfl⟩

end ReceiveView
end IrohShare
