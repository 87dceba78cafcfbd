import IrohShare.OfferTrails

/-!
# Consent

A download is traced back, over the handler's decision, the oneshot channel and the
slot, to the one call of `respond_offer` that accepted the offer.
-/
namespace IrohShare
namespace Desk
open Transition

variable {s : Desk} {log : List Event} {id id' : Nat} {c c' : CallId} {h h' : HandlerId}
  {cause : Retirement} {dir : String} {offer : Offer}

theorem SendersTracked.trail_of_retired (hs : SendersTracked s log)
    (hmem : .retired id h cause ∈ log) :
    senderTrail log h = [.retired id h cause, .assigned id h] := by
  have htrail : .retired id h cause ∈ senderTrail log h := by
    simp [List.mem_filter, Event.ofSender, hmem]
  rcases hs.shape h with hnil | ⟨id', hone | ⟨cause', htwo⟩⟩
  · simp [hnil] at htrail
  · simp [hone] at htrail
  · simp only [htwo, List.mem_cons, Event.retired.injEq, reduceCtorEq, List.not_mem_nil, or_false,
      true_and] at htrail
    obtain ⟨rfl, rfl⟩ := htrail
    exact htwo

/-- An offer is retired once, by one cause. -/
theorem SendersTracked.retired_unique (hs : SendersTracked s log) {cause' : Retirement}
    (hmem : .retired id h cause ∈ log) (hmem' : .retired id' h cause' ∈ log) :
    id' = id ∧ cause' = cause := by
  have heq := (hs.trail_of_retired hmem').symm.trans (hs.trail_of_retired hmem)
  simp only [List.cons.injEq, Event.retired.injEq, true_and] at heq
  exact heq.1

/-- A call retires one offer. -/
theorem CallStory.retired_unique {call : Call} (hstory : CallStory c call (callTrail log c))
    (hmem : .retired id h (.call c) ∈ log) (hmem' : .retired id' h' (.call c) ∈ log) :
    h' = h := by
  have htrail : .retired id h (.call c) ∈ callTrail log c := by
    simp [List.mem_filter, Event.ofCall, hmem]
  have htrail' : .retired id' h' (.call c) ∈ callTrail log c := by
    simp [List.mem_filter, Event.ofCall, hmem']
  generalize callTrail log c = trail at *
  cases call with
  | none | resolved id d => simp_all [CallStory]
  | taken p d => simp_all [CallStory]
  | sent id delivered | returned id result =>
    obtain ⟨h, d, rfl⟩ := hstory
    simp_all
  | failed error =>
    rcases hstory with rfl | ⟨id, d, rfl⟩ <;> simp at htrail

/-- A call that retired an offer was resolved for it. -/
theorem CallStory.resolved_of_retired {call : Call} (hstory : CallStory c call (callTrail log c))
    (hmem : .retired id h (.call c) ∈ log) : ∃ d, .resolved c id d ∈ log := by
  have htrail : .retired id h (.call c) ∈ callTrail log c := by
    simp [List.mem_filter, Event.ofCall, hmem]
  have hresolved : ∃ d, .resolved c id d ∈ callTrail log c := by
    generalize callTrail log c = trail at *
    cases call with
    | none | resolved id d => simp_all [CallStory]
    | taken p d => simp_all [CallStory]
    | sent id delivered | returned id result =>
      obtain ⟨h, d, rfl⟩ := hstory
      simp_all
    | failed error =>
      rcases hstory with rfl | ⟨id, d, rfl⟩ <;> simp at htrail
  obtain ⟨d, hresolved⟩ := hresolved
  exact ⟨d, (List.mem_filter.mp hresolved).1⟩

/-- The trails a handler can have. -/
theorem HandlersTracked.trail_cases (hs : HandlersTracked s log) (h : HandlerId) :
    handlerTrail log h = [] ∨ ∃ remote offer,
      handlerTrail log h = [.connected h remote offer] ∨
      handlerTrail log h = [.gaveUp h, .connected h remote offer] ∨
      (∃ d, handlerTrail log h = [.decided h d, .connected h remote offer]) ∨
      ∃ dir, handlerTrail log h =
        [.download h dir offer, .decided h (.accept dir), .connected h remote offer] := by
  cases hh : s.handlers h with
  | none => exact .inl (hs.absent hh)
  | some handler =>
    have hstory := hs.story hh
    refine .inr ⟨handler.remote, handler.offer, ?_⟩
    unfold HandlerStory at hstory
    cases hphase : handler.phase <;> simp only [hphase] at hstory
    case refused | offering | waiting => exact .inl hstory
    case elapsed => exact .inr (.inl hstory)
    case accepted dir => exact .inr (.inr (.inl ⟨_, hstory⟩))
    case downloading dir => exact .inr (.inr (.inr ⟨dir, hstory⟩))
    case declining => exact .inr (hstory.imp_right (fun hdecided => .inl ⟨_, hdecided⟩))
    case failed =>
      rcases hstory with hstory | ⟨dir, hstory⟩
      · exact .inl hstory
      · exact .inr (.inr (.inl ⟨_, hstory⟩))

theorem HandlersTracked.trail_of_download (hs : HandlersTracked s log)
    (hmem : .download h dir offer ∈ log) : ∃ remote, handlerTrail log h =
      [.download h dir offer, .decided h (.accept dir), .connected h remote offer] := by
  have htrail : .download h dir offer ∈ handlerTrail log h := by
    simp [List.mem_filter, Event.ofHandler, hmem]
  rcases hs.trail_cases h with
    hnil | ⟨remote, offer', hstory | hstory | ⟨d, hstory⟩ | ⟨dir', hstory⟩⟩
  · simp [hnil] at htrail
  · simp [hstory] at htrail
  · simp [hstory] at htrail
  · simp [hstory] at htrail
  · simp only [hstory, List.mem_cons, Event.download.injEq, true_and, reduceCtorEq,
      List.not_mem_nil, or_false] at htrail
    obtain ⟨rfl, rfl⟩ := htrail
    exact ⟨remote, hstory⟩

/-- The decisions handler `h` takes. -/
def Event.decides (h : HandlerId) : Event → Bool
  | decided h' _ => h' = h
  | _ => false

/-- The downloads of handler `h`. -/
def Event.downloads (h : HandlerId) : Event → Bool
  | download h' _ _ => h' = h
  | _ => false

/-- The downloads call `c` started, those of the offer it removed. -/
def Event.startedBy (log : List Event) (c : CallId) : Event → Bool
  | download h _ _ => log.any (fun
    | retired _ h' (.call c') => h' = h && c' = c
    | _ => false)
  | _ => false

/-- What stands behind a download, in the log `log` of the run and in `pre`, what was
before the download: one call, which resolved to the directory and removed the offer
under a number no other offer has; no refusal of any kind; and one connection, whose
peer is the only provider asked, for the hash of the ticket. -/
structure Consent (log pre : List Event) (h : HandlerId) (dir : String) (offer : Offer) :
    Prop where
  call : ∃ c id, .resolved c id (.accept dir) ∈ pre ∧ .assigned id h ∈ pre ∧
    .retired id h (.call c) ∈ pre ∧
    (∀ h', .assigned id h' ∈ log → h' = h) ∧
    ∀ c' id', .resolved c' id' (.accept dir) ∈ log → .retired id' h (.call c') ∈ log →
      c' = c ∧ id' = id
  declined : .decided h .decline ∉ log
  gaveUp : .gaveUp h ∉ log
  expired : ∀ id iteration, .retired id h (.expiry iteration) ∉ log
  displaced : ∀ id, .retired id h .displaced ∉ log
  provider : ∃ remote, .connected h remote offer ∈ pre ∧
    (∀ remote' offer', .connected h remote' offer' ∈ log → remote' = remote ∧ offer' = offer) ∧
    ∀ host, IrohShare.download host dir offer =
      IrohShare.download (host.onlyFrom offer.ticket.hash remote) dir offer

/-- What a handler has when it calls `download`. -/
theorem before_download {l : Logged Desk Event} (hl : logged.Reachable l) {post pre : List Event}
    (hlog : l.log = post ++ .download h dir offer :: pre) :
    (∃ c id, .resolved c id (.accept dir) ∈ pre ∧ .assigned id h ∈ pre ∧
      .retired id h (.call c) ∈ pre) ∧ .connected h offer.ticket.addr.id offer ∈ pre := by
  let Q : Event → List Event → Prop := fun e pre => ∀ h dir offer, e = .download h dir offer →
    (∃ c id, .resolved c id (.accept dir) ∈ pre ∧ .assigned id h ∈ pre ∧
      .retired id h (.call c) ∈ pre) ∧ .connected h offer.ticket.addr.id offer ∈ pre
  refine (?_ : Q (.download h dir offer) pre) h dir offer rfl
  refine hl.forall_event ?_ hlog
  rintro l a l' _ hl - hst hevent h dir offer rfl
  obtain ⟨hst, -⟩ := logged_step_spec hst
  rw [hevent] at hst
  have ht := tracked hl
  generalize l'.state = s' at hst
  cases hst with
  | @download _ handler _ hh hphase =>
    have hstory := ht.handlers.story hh
    simp only [HandlerStory, hphase] at hstory
    have hdecided : .decided h (.accept dir) ∈ handlerTrail l.log h := by simp [hstory]
    have hconnected : .connected h handler.remote handler.offer ∈ handlerTrail l.log h := by
      simp [hstory]
    obtain ⟨c, id, htrail, hresolved⟩ := ht.accepts.decided (List.mem_filter.mp hdecided).1
    have hassigned : .assigned id h ∈ senderTrail l.log h := by simp [htrail]
    have hretired : .retired id h (.call c) ∈ senderTrail l.log h := by simp [htrail]
    rw [ht.handlers.peer hh (by simp [hphase])]
    exact ⟨⟨c, id, hresolved, (List.mem_filter.mp hassigned).1, (List.mem_filter.mp hretired).1⟩,
      (List.mem_filter.mp hconnected).1⟩

theorem consent_of_download {l : Logged Desk Event} (hl : logged.Reachable l)
    {post pre : List Event} (hlog : l.log = post ++ .download h dir offer :: pre) :
    Consent l.log pre h dir offer := by
  have ht := tracked hl
  obtain ⟨⟨c, id, hresolved, hassigned, hretired⟩, hconnected⟩ := before_download hl hlog
  have hpre : ∀ {e}, e ∈ pre → e ∈ l.log := by
    intro e he
    simp [hlog, he]
  have hdownload : .download h dir offer ∈ l.log := by simp [hlog]
  obtain ⟨remote, htrail⟩ := ht.handlers.trail_of_download hdownload
  -- the trail of the handler is known, so its other events are excluded
  have honly : ∀ {e}, e ∈ l.log → e.ofHandler h = true → e ∈ [Event.download h dir offer,
      .decided h (.accept dir), .connected h remote offer] := by
    intro e he hof
    rw [← htrail]
    exact List.mem_filter.mpr ⟨he, hof⟩
  have hremote := honly (hpre hconnected) (by simp [Event.ofHandler])
  exact {
    call := by
      refine ⟨c, id, hresolved, hassigned, hretired, ?_, ?_⟩
      · exact fun h' hassigned' => ht.senders.unique hassigned' (hpre hassigned)
      · intro c' id' _ hretired'
        obtain ⟨hid, hcause⟩ := ht.senders.retired_unique (hpre hretired) hretired'
        exact ⟨Retirement.call.inj hcause, hid⟩
    declined := fun hmem => by simpa using honly hmem (by simp [Event.ofHandler])
    gaveUp := fun hmem => by simpa using honly hmem (by simp [Event.ofHandler])
    expired := fun id' iteration hmem => by
      simpa using (ht.senders.retired_unique (hpre hretired) hmem).2
    displaced := fun id' hmem => by
      simpa using (ht.senders.retired_unique (hpre hretired) hmem).2
    provider := by
      refine ⟨_, hconnected, fun remote' offer' hmem => ?_, fun host => download_onlyFrom host ..⟩
      have hmem := honly hmem (by simp [Event.ofHandler])
      simp_all }

/-- Events of the handler `h` are counted on its trail. -/
theorem countP_handlerTrail {p : Event → Bool} (hp : ∀ e, p e = true → e.ofHandler h = true) :
    log.countP p = (handlerTrail log h).countP p := by
  rw [handlerTrail, List.countP_filter]
  refine List.countP_congr (fun e _ => ?_)
  simpa using hp e

theorem HandlersTracked.decides_le_one (hs : HandlersTracked s log) (h : HandlerId) :
    log.countP (Event.decides h) ≤ 1 := by
  have hof : ∀ e, Event.decides h e = true → e.ofHandler h = true := by
    intro e he
    cases e <;> simp_all [Event.decides, Event.ofHandler]
  rw [countP_handlerTrail hof]
  rcases hs.trail_cases h with
    hnil | ⟨remote, offer', hstory | hstory | ⟨d, hstory⟩ | ⟨dir', hstory⟩⟩ <;>
    simp [*, Event.decides]

theorem HandlersTracked.downloads_le_one (hs : HandlersTracked s log) (h : HandlerId) :
    log.countP (Event.downloads h) ≤ 1 := by
  have hof : ∀ e, Event.downloads h e = true → e.ofHandler h = true := by
    intro e he
    cases e <;> simp_all [Event.downloads, Event.ofHandler]
  rw [countP_handlerTrail hof]
  rcases hs.trail_cases h with
    hnil | ⟨remote, offer', hstory | hstory | ⟨d, hstory⟩ | ⟨dir', hstory⟩⟩ <;>
    simp [*, Event.downloads]

theorem startedBy_iff {e : Event} : e.startedBy log c = true ↔
    ∃ h dir offer, e = .download h dir offer ∧ ∃ id, .retired id h (.call c) ∈ log := by
  constructor
  · intro he
    unfold Event.startedBy at he
    split at he
    · obtain ⟨e', hmem, he'⟩ := List.any_eq_true.mp he
      split at he'
      · simp only [Bool.and_eq_true, decide_eq_true_eq] at he'
        obtain ⟨rfl, rfl⟩ := he'
        exact ⟨_, _, _, rfl, _, hmem⟩
      · cases he'
    · cases he
  · rintro ⟨h, dir, offer, rfl, id, hmem⟩
    exact List.any_eq_true.mpr ⟨_, hmem, by simp⟩

theorem Tracked.startedBy_le_one {l : Logged Desk Event} (ht : Tracked l) (c : CallId) :
    l.log.countP (Event.startedBy l.log c) ≤ 1 := by
  by_cases hex : ∃ e ∈ l.log, e.startedBy l.log c = true
  · obtain ⟨e, -, he⟩ := hex
    obtain ⟨h, -, -, -, id, hretired⟩ := startedBy_iff.mp he
    refine Nat.le_trans (List.countP_mono_left (fun e' _ he' => ?_))
      (ht.handlers.downloads_le_one h)
    obtain ⟨h', dir', offer', rfl, id', hretired'⟩ := startedBy_iff.mp he'
    simpa [Event.downloads] using (ht.calls c).retired_unique hretired hretired'
  · rw [List.countP_eq_zero.mpr (fun e hmem he => hex ⟨e, hmem, he⟩)]
    exact Nat.zero_le 1

/-- **No transfer without consent for that very offer.**  In every run, behind every
download stands the one call of `respond_offer` that accepted it; each handler takes at
most one decision, and each call starts at most one download. -/
theorem transfers_consented {l : Logged Desk Event} (hl : logged.Reachable l) :
    (∀ post pre h dir offer, l.log = post ++ .download h dir offer :: pre →
      Consent l.log pre h dir offer) ∧
    (∀ h, l.log.countP (Event.decides h) ≤ 1) ∧
    ∀ c, l.log.countP (Event.startedBy l.log c) ≤ 1 :=
  ⟨fun _ _ _ _ _ hlog => consent_of_download hl hlog, (tracked hl).handlers.decides_le_one,
    (tracked hl).startedBy_le_one⟩

/-- The offer of another peer. -/
def secondOffer : Offer := ⟨"b.txt", 5, ⟨⟨⟨2⟩, []⟩, ⟨8⟩, .raw⟩⟩

/-- Two peers offer a file each.  The first offer is accepted twice, and its id is used once
more when the second one has been shown, which is then accepted. -/
def twoOffersRun : List Action :=
  [.connect 0 ⟨1⟩ Offer.sampleOffer, .connect 1 ⟨2⟩ secondOffer, .enqueue 0, .enqueue 1, .recv [],
    .store, .emitIncoming, .enterWait, .respond 0 1 true (some "/tmp") openDirectories,
    .respond 1 1 true (some "/home") openDirectories, .take 0, .take 1, .send 0, .notify 0,
    .decide 0, .download 0, .wake, .recv [], .store, .emitIncoming, .enterWait,
    .respond 2 1 true (some "/home") openDirectories, .take 2,
    .respond 3 2 true (some "/home") openDirectories, .take 3, .send 3, .notify 3, .decide 1,
    .download 1]

theorem transfers_consented_twoOffersRun : ∃ l pre,
    logged.exec ⟨start, []⟩ twoOffersRun = some l ∧
    l.state.calls 1 = .failed "This offer is no longer available" ∧
    l.state.calls 2 = .failed "This offer is no longer available" ∧
    l.log = .download 1 "/home" secondOffer :: pre ∧
    Consent l.log pre 1 "/home" secondOffer ∧
    (l.log[7]? = some (.download 0 "/tmp" Offer.sampleOffer) ∧
      Consent l.log (l.log.drop 8) 0 "/tmp" Offer.sampleOffer) ∧
    l.log.countP (Event.decides 0) ≤ 1 ∧ l.log.countP (Event.startedBy l.log 0) ≤ 1 := by
  obtain ⟨l, hrun, hlog⟩ : ∃ l, logged.exec ⟨start, []⟩ twoOffersRun = some l ∧
      l.log = l.log.take 7 ++ .download 0 "/tmp" Offer.sampleOffer :: l.log.drop 8 :=
    ⟨_, rfl, by decide⟩
  have hall := transfers_consented (logged_reachable hrun)
  have hfirst := hall.1 _ _ _ _ _ hlog
  cases hrun
  exact ⟨_, _, rfl, rfl, rfl, rfl, hall.1 [] _ _ _ _ rfl, ⟨rfl, hfirst⟩, hall.2.1 0, hall.2.2 0⟩

end Desk
end IrohShare
