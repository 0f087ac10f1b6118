import Mathlib.Data.List.Count
import Mathlib.Data.List.Perm.Basic
import Vingilot.Acp.Queue
import Vingilot.Lib.Machine

/-!
# What the event queue keeps

Every operation is an exchange: it takes some events in and lets some go. From that, the events a
run has accepted are counted over the places where they can be.
-/

namespace Vingilot.Acp

variable {q q' : EventQueue}

namespace EventQueue

def held (q : EventQueue) (c : Uuid) : List Item :=
  queuedItems c (q.queueOf c) ++ queuedItems c (q.withheldOf c) ++ items c (q.cancelledOf c)

/-- The queue takes `taken` in and lets `left` go. -/
def Exchanges (q q' : EventQueue) (taken left : List Item) : Prop :=
  ∀ x : Item,
    (q'.held x.channelId).count x + left.count x = (q.held x.channelId).count x + taken.count x

theorem exchanges_trans {q'' : EventQueue} {taken taken' left left' : List Item}
    (h : Exchanges q q' taken left) (h' : Exchanges q' q'' taken' left') :
    Exchanges q q'' (taken ++ taken') (left ++ left') := by
  intro x
  have := h x
  have := h' x
  simp only [List.count_append]
  omega

theorem exchanges_nil (hqueues : q'.queues = q.queues)
    (hwithheld : q'.withheldNativeSteer = q.withheldNativeSteer)
    (hcancelled : q'.cancelledBatches = q.cancelledBatches) : Exchanges q q' [] [] := by
  intro x
  simp only [held, queueOf, withheldOf, cancelledOf, hqueues, hwithheld, hcancelled]

end EventQueue

theorem count_items (c : Uuid) (events : List BatchEvent) (x : Item) :
    (items c events).count x = if x.channelId = c then events.count x.event else 0 := by
  obtain ⟨c', e⟩ := x
  by_cases hc : c' = c
  · subst hc
    rw [if_pos rfl, items]
    exact List.count_map_of_injective events (Item.mk c') (fun e e' h => (Item.mk.inj h).2) e
  · rw [if_neg hc, List.count_eq_zero]
    intro hmem
    obtain ⟨e', -, heq⟩ := List.mem_map.mp hmem
    exact hc (Item.mk.inj heq).1.symm

theorem count_queuedItems (c : Uuid) (events : List QueuedEvent) (x : Item) :
    (queuedItems c events).count x =
      if x.channelId = c then (events.map (·.toBatch)).count x.event else 0 :=
  count_items ..

theorem count_batch_items (batch : FlushBatch) (x : Item) :
    batch.items.count x = if x.channelId = batch.channelId
      then batch.events.count x.event + batch.cancelledEvents.count x.event else 0 := by
  rw [FlushBatch.items, count_items, List.count_append]

@[simp]
theorem map_toBatch_queued (batch : FlushBatch) :
    batch.queued.map (·.toBatch) = batch.events := by
  rw [FlushBatch.queued, List.map_map]
  exact List.map_id batch.events

namespace EventQueue

theorem count_held (q : EventQueue) (x : Item) :
    (q.held x.channelId).count x = ((q.queueOf x.channelId).map (·.toBatch)).count x.event +
      ((q.withheldOf x.channelId).map (·.toBatch)).count x.event +
      (q.cancelledOf x.channelId).count x.event := by
  simp only [held, List.count_append, count_queuedItems, count_items, if_pos]

theorem count_take_drop (l : List QueuedEvent) (n : Nat) (e : BatchEvent) :
    ((l.take n).map (·.toBatch)).count e + ((l.drop n).map (·.toBatch)).count e =
      (l.map (·.toBatch)).count e := by
  rw [← List.count_append, ← List.map_append, List.take_append_drop]

theorem exchanges_pushFront (q : EventQueue) (c : Uuid) (events : List QueuedEvent) :
    Exchanges q (q.pushFront c events) (queuedItems c events) (q.overflow c events) := by
  intro x
  have hsplit := count_take_drop (events ++ q.queueOf c) maxPendingPerChannel x.event
  rw [List.map_append, List.count_append] at hsplit
  rw [count_held, count_held, overflow, count_queuedItems, count_queuedItems]
  simp only [queueOf_pushFront, withheldOf_pushFront, cancelledOf_pushFront]
  by_cases hc : x.channelId = c
  · simp only [hc, if_true]
    omega
  · simp only [if_neg hc]

theorem count_singleton (c : Uuid) (e : BatchEvent) (x : Item) :
    [Item.mk c e].count x = if x.channelId = c then [e].count x.event else 0 :=
  count_items c [e] x

theorem push_cases (q : EventQueue) (e : QueuedEvent) :
    q.push e = (q, false) ∨
      (q.push e).2 = true ∧
        Exchanges q (q.push e).1 [Item.mk e.channelId e.toBatch]
          (queuedItems e.channelId (q.evicted e.channelId)) := by
  unfold push
  split_ifs with hdrop
  · exact .inl rfl
  · refine .inr ⟨rfl, ?_⟩
    intro x
    rw [count_held, count_held, count_queuedItems, count_singleton]
    simp only [queueOf_putQueue, withheldOf_putQueue, cancelledOf_putQueue, evicted]
    by_cases hc : x.channelId = e.channelId
    · have hsplit := count_take_drop (q.queueOf e.channelId) 1 x.event
      simp only [hc, if_true, List.map_append, List.map_cons, List.map_nil, List.count_append]
      by_cases hfull : maxPendingPerChannel ≤ (q.queueOf e.channelId).length
      · simp only [if_pos hfull]
        omega
      · simp only [if_neg hfull, List.map_nil, List.count_nil]
        omega
    · simp only [hc, if_false]

/-! ## Expiry -/

theorem exchanges_expireChannel (q : EventQueue) (c : Uuid) :
    Exchanges q (q.expireChannel c) []
      (if (q.withheldNativeSteer.get? c).isSome then q.overflow c (q.withheldOf c) else []) := by
  obtain ⟨hwithheld, hexpire⟩ | ⟨entries, hwithheld, hexpire⟩ := expireChannel_cases q c
  · rw [hexpire, hwithheld]
    exact exchanges_nil rfl rfl rfl
  · rw [hexpire, hwithheld]
    intro x
    have hof : q.withheldOf c = entries := by simp [withheldOf, hwithheld]
    have hsplit := count_take_drop (entries ++ q.queueOf c) maxPendingPerChannel x.event
    rw [List.map_append, List.count_append] at hsplit
    simp only [Option.isSome_some, if_true, hof]
    rw [count_held, count_held, overflow, count_queuedItems]
    simp only [queueOf_pushFront, withheldOf_pushFront, cancelledOf_pushFront]
    by_cases hc : x.channelId = c
    · simp only [hc, if_true, land, withheldOf, cancelledOf, Table.get?_remove, hwithheld,
        Option.getD_none, Option.getD_some, List.map_nil, List.count_nil, queueOf] at hsplit ⊢
      omega
    · simp only [hc, if_false, land, queueOf, withheldOf, cancelledOf, Table.get?_remove]
      rfl

theorem exchanges_expire_all (q : EventQueue) (cs : List Uuid) :
    Exchanges q (cs.foldl expireChannel q) [] (q.recoveryOverflow cs) := by
  induction cs generalizing q with
  | nil => exact exchanges_nil rfl rfl rfl
  | cons c cs ih => exact exchanges_trans (exchanges_expireChannel q c) (ih (q.expireChannel c))

theorem exchanges_expire (q : EventQueue) (now : Nat) :
    Exchanges q (q.expire now) [] (q.recoveryOverflow (q.expired now)) :=
  exchanges_expire_all q _

/-! ## Flushing -/

theorem exchanges_drainReady (q : EventQueue) (c : Uuid) (now : Nat) :
    Exchanges q (q.drainReady c now).1 [] (q.drainReady c now).2.items := by
  intro x
  have hsorted : ((q.drainReady c now).2.events).Perm
      (((q.queueOf c).take maxBatchEvents).map (·.toBatch)) := List.perm_insertionSort ..
  have hsplit := count_take_drop (q.queueOf c) maxBatchEvents x.event
  rw [count_held, count_held, count_batch_items, hsorted.count_eq]
  simp only [drainReady, queueOf_clearCancelled, withheldOf_clearCancelled,
    cancelledOf_clearCancelled, queueOf_takeOff, withheldOf_takeOff, cancelledOf_takeOff,
    queueOf_setQueue, withheldOf_setQueue, cancelledOf_setQueue]
  by_cases hc : x.channelId = c
  · simp only [hc, if_true, List.count_nil]
    omega
  · simp only [hc, if_false, List.count_nil]

theorem exchanges_redispatch (q : EventQueue) (c : Uuid) (now : Nat) :
    Exchanges q (q.redispatch c now).1 [] (q.redispatch c now).2.items := by
  intro x
  rw [count_held, count_held, count_batch_items]
  simp only [redispatch, queueOf_clearCancelled, withheldOf_clearCancelled,
    cancelledOf_clearCancelled, queueOf_takeOff, withheldOf_takeOff, cancelledOf_takeOff]
  by_cases hc : x.channelId = c
  · simp only [hc, if_true, List.count_nil]
    omega
  · simp only [hc, if_false, List.count_nil]

theorem exchanges_flushNext {now : Nat} {pick : Uuid} {batch : Option FlushBatch}
    (h : q.flushNext now pick = some (q', batch)) :
    Exchanges q q' [] (q.recoveryOverflow (q.expired now) ++ (batch.map (·.items)).getD []) := by
  have hexpire := exchanges_expire q now
  unfold flushNext at h
  dsimp only at h
  split_ifs at h
  · cases h
    exact exchanges_trans hexpire (exchanges_drainReady (q.expire now) pick now)
  · cases h
    exact exchanges_trans hexpire (exchanges_redispatch (q.expire now) pick now)
  · cases h
    rw [Option.map_none, Option.getD_none, List.append_nil]
    exact hexpire

/-! ## Returned batches -/

theorem exchanges_markComplete (q : EventQueue) (c : Uuid) (now : Nat) :
    Exchanges q (q.markComplete c now) [] [] := by
  obtain ⟨_, _, hcomplete⟩ := markComplete_cases q c now
  rw [hcomplete]
  exact exchanges_nil rfl rfl rfl

theorem exchanges_extendInFlightDeadline (q : EventQueue) (c : Uuid) (maxTurnSecs now : Nat) :
    Exchanges q (q.extendInFlightDeadline c maxTurnSecs now) [] [] := by
  obtain hsame | ⟨_, _, -, -, hextend⟩ := extendInFlightDeadline_cases q c maxTurnSecs now
  · rw [hsame]
    exact exchanges_nil rfl rfl rfl
  · rw [hextend]
    exact exchanges_nil rfl rfl rfl

theorem requeue_cases (q : EventQueue) (batch : FlushBatch) (now delay : Nat) :
    (maxRetries < q.attempt batch.channelId ∧ (q.requeue batch now delay).2 = some batch ∧
      Exchanges q (q.requeue batch now delay).1 [] []) ∨
    (¬ maxRetries < q.attempt batch.channelId ∧ (q.requeue batch now delay).2 = none ∧
      Exchanges q (q.requeue batch now delay).1 (items batch.channelId batch.events)
        (q.overflow batch.channelId batch.queued)) := by
  unfold requeue
  dsimp only
  split_ifs with hdead
  · exact .inl ⟨hdead, rfl, exchanges_nil rfl rfl rfl⟩
  · refine .inr ⟨hdead, rfl, ?_⟩
    have hpush := exchanges_pushFront q batch.channelId batch.queued
    rw [queuedItems, map_toBatch_queued] at hpush
    exact hpush

theorem exchanges_requeuePreserveTimestamps (q : EventQueue) (batch : FlushBatch) :
    Exchanges q (q.requeuePreserveTimestamps batch) (items batch.channelId batch.events)
      (q.overflow batch.channelId batch.queued) := by
  have hpush := exchanges_pushFront q batch.channelId batch.queued
  rw [queuedItems, map_toBatch_queued] at hpush
  exact hpush

theorem exchanges_requeueAsCancelled (q : EventQueue) (batch : FlushBatch)
    (reason : CancelReason) : Exchanges q (q.requeueAsCancelled batch reason) batch.items [] := by
  intro x
  rw [count_held, count_held, count_batch_items]
  simp only [requeueAsCancelled, queueOf, withheldOf, cancelledOf, Table.get?_set, List.count_nil]
  by_cases hc : x.channelId = batch.channelId
  · simp only [hc, if_true, Option.getD_some, List.count_append]
    omega
  · simp only [hc, if_false]

theorem exchanges_drainChannel (q : EventQueue) (c : Uuid) :
    Exchanges q (q.drainChannel c).1 [] (q.held c) := by
  intro x
  have hheld : (q.held c).count x = if x.channelId = c then (q.held x.channelId).count x else 0 := by
    split_ifs with hc
    · rw [hc]
    · simp only [held, List.count_append, count_queuedItems, count_items, if_neg hc]
  rw [hheld, count_held, count_held]
  simp only [drainChannel, queueOf, withheldOf, cancelledOf, Table.get?_remove, List.count_nil]
  by_cases hc : x.channelId = c
  · simp only [hc, if_true, Option.getD_none, List.map_nil, List.count_nil]
    omega
  · simp only [hc, if_false]

/-! ## Steers -/

theorem count_eraseP {l : List QueuedEvent} {p : QueuedEvent → Bool} {e : QueuedEvent}
    (h : l.find? p = some e) (x : BatchEvent) :
    ((l.eraseP p).map (·.toBatch)).count x + [e.toBatch].count x =
      (l.map (·.toBatch)).count x := by
  induction l with
  | nil => cases h
  | cons y l ih =>
    by_cases hp : p y = true
    · rw [List.find?_cons_of_pos hp] at h
      cases h
      rw [List.eraseP_cons_of_pos hp, List.map_cons, List.count_cons, List.count_cons]
      simp only [List.count_nil]
      omega
    · rw [List.find?_cons_of_neg hp] at h
      have htail := ih h
      rw [List.eraseP_cons_of_neg hp, List.map_cons, List.map_cons, List.count_cons]
      rw [List.count_cons (b := y.toBatch)]
      omega

theorem exchanges_markNativeSteerPending (q : EventQueue) (c : Uuid) (id : String) :
    Exchanges q (q.markNativeSteerPending c id).1 [] [] := by
  unfold markNativeSteerPending
  cases hfind : (q.queueOf c).find? (hasId id) with
  | none => exact exchanges_nil rfl rfl rfl
  | some e =>
    intro x
    have herase := count_eraseP hfind x.event
    rw [count_held, count_held]
    simp only [queueOf_setWithheld, withheldOf_setWithheld, cancelledOf_setWithheld,
      queueOf_setQueue, withheldOf_setQueue, cancelledOf_setQueue]
    by_cases hc : x.channelId = c
    · simp only [hc, if_true, List.map_append, List.map_cons, List.map_nil, List.count_append]
      omega
    · simp only [hc, if_false]

theorem exchanges_releaseNativeSteer (q : EventQueue) (c : Uuid) (id : String) :
    Exchanges q (q.releaseNativeSteer c id) [] (q.releaseOverflow c id) := by
  unfold releaseNativeSteer releaseOverflow
  cases hfind : (q.withheldOf c).find? (hasId id) with
  | none => exact exchanges_nil rfl rfl rfl
  | some e =>
    intro x
    have herase := count_eraseP hfind x.event
    have hsplit := count_take_drop ([e] ++ q.queueOf c) maxPendingPerChannel x.event
    rw [List.map_append, List.count_append] at hsplit
    dsimp only
    rw [count_held, count_held, overflow, count_queuedItems]
    simp only [queueOf_pushFront, withheldOf_pushFront, cancelledOf_pushFront,
      queueOf_setWithheld, withheldOf_setWithheld, cancelledOf_setWithheld]
    by_cases hc : x.channelId = c
    · simp only [hc, if_true, List.map_cons, List.map_nil, List.count_nil] at hsplit ⊢
      omega
    · simp only [hc, if_false, List.count_nil]

theorem of_removeEvent (q : EventQueue) (c c' : Uuid) (id : String) :
    (q.removeEvent c id).queueOf c' =
        (if c' = c then (q.queueOf c).filter fun e => !hasId id e else q.queueOf c') ∧
      (q.removeEvent c id).withheldOf c' =
        (if c' = c then (q.withheldOf c).filter fun e => !hasId id e else q.withheldOf c') ∧
      (q.removeEvent c id).cancelledOf c' = q.cancelledOf c' := by
  have hnoQueue : ¬ (q.queues.get? c).isSome = true → q.queueOf c = [] := by
    intro h
    rw [queueOf, Option.not_isSome_iff_eq_none.mp h, Option.getD_none]
  have hnoWithheld : ¬ (q.withheldNativeSteer.get? c).isSome = true → q.withheldOf c = [] := by
    intro h
    rw [withheldOf, Option.not_isSome_iff_eq_none.mp h, Option.getD_none]
  -- The first step leaves the queues alone.
  obtain ⟨r, hr, hqueues, hwithheld, hcancelled⟩ : ∃ r : EventQueue,
      r = (if (q.withheldNativeSteer.get? c).isSome then
        q.setWithheld c ((q.withheldOf c).filter fun e => !hasId id e) else q) ∧
      r.queues = q.queues ∧
      r.withheldOf c' =
        (if c' = c then (q.withheldOf c).filter fun e => !hasId id e else q.withheldOf c') ∧
      r.cancelledOf c' = q.cancelledOf c' := by
    refine ⟨_, rfl, ?_⟩
    split_ifs with hsome hc hc
    · exact ⟨queues_setWithheld .., by simp [hc], by simp⟩
    · exact ⟨queues_setWithheld .., by simp [hc], by simp⟩
    · exact ⟨rfl, by simp [hc, hnoWithheld hsome], rfl⟩
    · exact ⟨rfl, rfl, rfl⟩
  have hqueueOf : ∀ c, r.queueOf c = q.queueOf c := fun c => by rw [queueOf, hqueues, queueOf]
  unfold removeEvent
  rw [← hr]
  dsimp only
  rw [hqueues, hqueueOf c]
  rw [← hwithheld, ← hcancelled]
  split_ifs with hsome hc hc
  · exact ⟨by simp [hc], by simp, by simp⟩
  · exact ⟨by simp [hc, hqueueOf], by simp, by simp⟩
  · exact ⟨by simp [hc, hqueueOf, hnoQueue hsome], rfl, rfl⟩
  · exact ⟨hqueueOf c', rfl, rfl⟩

theorem count_filter_not (l : List QueuedEvent) (p : QueuedEvent → Bool) (x : BatchEvent) :
    ((l.filter fun e => !p e).map (·.toBatch)).count x + ((l.filter p).map (·.toBatch)).count x =
      (l.map (·.toBatch)).count x := by
  rw [Nat.add_comm, ← List.count_append, ← List.map_append]
  exact ((List.filter_append_perm p l).map _).count_eq x

theorem exchanges_removeEvent (q : EventQueue) (c : Uuid) (id : String) :
    Exchanges q (q.removeEvent c id) []
      (queuedItems c ((q.queueOf c).filter (hasId id)) ++
        queuedItems c ((q.withheldOf c).filter (hasId id))) := by
  intro x
  have hqueue := count_filter_not (q.queueOf c) (hasId id) x.event
  have hwithheld := count_filter_not (q.withheldOf c) (hasId id) x.event
  rw [count_held, count_held, List.count_append, count_queuedItems, count_queuedItems,
    (of_removeEvent q c _ id).1, (of_removeEvent q c _ id).2.1, (of_removeEvent q c _ id).2.2]
  by_cases hc : x.channelId = c
  · simp only [hc, if_true, List.count_nil]
    omega
  · simp only [hc, if_false, List.count_nil]

end EventQueue

/-! ## Where an accepted event is -/

def World.outstanding (w : World) : List Item := w.handed.flatMap (·.batch.items)

/-- Each event is as often in one of its places as it was accepted: with the queue, in a batch that
a caller holds, or among those that have left. -/
def World.Conserved (w : World) : Prop :=
  ∀ x : Item, w.accepted.count x = (w.queue.held x.channelId).count x + w.outstanding.count x +
    (w.gone.map Prod.snd).count x

def World.Balanced (w : World) : Prop :=
  ∀ x : Item, w.accepted.count x = (w.queue.held x.channelId).count x + w.outstanding.count x +
    (w.gone.map Prod.snd).count x + w.lost.count x

variable {w : World}

theorem conserved_iff (h : w.Balanced) : w.Conserved ↔ w.lost = [] := by
  constructor
  · intro hconserved
    refine List.eq_nil_iff_forall_not_mem.mpr fun x hx => ?_
    have hcount := List.count_pos_iff.mpr hx
    have := h x
    have := hconserved x
    omega
  · intro hlost x
    have := h x
    rw [hlost, List.count_nil, Nat.add_zero] at this
    exact this

theorem balanced_init (mode : DedupMode) (maxTurnDurationSecs : Nat) :
    (World.init ((EventQueue.new mode).withInFlightDeadline maxTurnDurationSecs)).Balanced := by
  intro x
  rfl

theorem balanced_of_exchange {w' : World} {taken left : List Item} (h : w.Balanced)
    (hqueue : w.queue.Exchanges w'.queue taken left)
    (hplaces : ∀ x : Item, w'.accepted.count x + left.count x + w.outstanding.count x +
        (w.gone.map Prod.snd).count x + w.lost.count x =
      w.accepted.count x + taken.count x + w'.outstanding.count x +
        (w'.gone.map Prod.snd).count x + w'.lost.count x) : w'.Balanced := by
  intro x
  have := h x
  have := hqueue x
  have := hplaces x
  omega

@[simp]
theorem count_gone_leave (w : World) (fate : Fate) (l : List Item) (x : Item) :
    ((w.leave fate l).gone.map Prod.snd).count x =
      (w.gone.map Prod.snd).count x + l.count x := by
  have hsnd : (l.map (fate, ·)).map Prod.snd = l := by
    rw [List.map_map]
    exact List.map_id l
  rw [World.leave, List.map_append, List.count_append, hsnd]

theorem count_outstanding_give {i : Nat} {batch : FlushBatch} (h : w.batch? i = some batch)
    (x : Item) : (w.give i).outstanding.count x + batch.items.count x = w.outstanding.count x := by
  obtain ⟨held, hget, rfl⟩ := Option.map_eq_some_iff.mp h
  obtain ⟨hi, hheld⟩ := List.getElem?_eq_some_iff.mp hget
  have hperm := (List.getElem_cons_eraseIdx_perm hi).flatMap_right fun h => h.batch.items
  rw [hheld, List.flatMap_cons] at hperm
  rw [World.outstanding, World.outstanding, ← hperm.count_eq, List.count_append, Nat.add_comm]
  rfl

theorem outstanding_map (l : List Handed) (f : Handed → Handed)
    (h : ∀ x, (f x).batch = x.batch) :
    (l.map f).flatMap (·.batch.items) = l.flatMap (·.batch.items) := by
  rw [List.flatMap_map]
  simp only [h]

theorem count_batch (batch : FlushBatch) (x : Item) :
    batch.items.count x = (items batch.channelId batch.events).count x +
      (items batch.channelId batch.cancelledEvents).count x := by
  rw [count_batch_items, count_items, count_items]
  split_ifs <;> rfl

def World.losses (w : World) : Action → List Item
  | .requeue i _ =>
    match w.batch? i with
    | none => []
    | some batch =>
      if maxRetries < w.queue.attempt batch.channelId then []
      else items batch.channelId batch.cancelledEvents
  | .requeuePreserveTimestamps i =>
    match w.batch? i with
    | none => []
    | some batch => items batch.channelId batch.cancelledEvents
  | _ => []

theorem step_balanced {w' : World} {a : Action} (h : w.Balanced) (hstep : step w a = some w') :
    w'.Balanced ∧ w'.lost = w.lost ++ w.losses a := by
  cases a with
  | tick nanos =>
    cases hstep
    exact ⟨h, (List.append_nil _).symm⟩
  | push e =>
    obtain ⟨hdrop, rfl⟩ | ⟨htaken, rfl⟩ := step_push_cases hstep
    · exact ⟨h, (List.append_nil _).symm⟩
    · obtain hdrop | ⟨-, hex⟩ := EventQueue.push_cases w.queue e
      · rw [hdrop] at htaken
        cases htaken
      · refine ⟨balanced_of_exchange h hex fun x => ?_, (List.append_nil _).symm⟩
        rw [count_gone_leave]
        simp only [World.leave, World.outstanding, List.count_append]
        omega
  | flushNext pick =>
    obtain ⟨q, hflush, rfl⟩ | ⟨q, batch, hflush, rfl⟩ := step_flushNext_cases hstep
    · refine ⟨balanced_of_exchange h (EventQueue.exchanges_flushNext hflush) fun x => ?_,
        (List.append_nil _).symm⟩
      rw [World.afterExpiry, count_gone_leave]
      simp only [World.leave, World.outstanding, List.count_append, Option.map_none,
        Option.getD_none, List.count_nil]
      omega
    · refine ⟨balanced_of_exchange h (EventQueue.exchanges_flushNext hflush) fun x => ?_,
        (List.append_nil _).symm⟩
      have hgone := count_gone_leave { w with queue := q } .capped
        (w.queue.recoveryOverflow (w.queue.expired w.clock)) x
      simp only [World.afterExpiry, World.outstanding, List.flatMap_append, List.count_append,
        Option.map_some, Option.getD_some, List.count_nil, List.flatMap_singleton] at hgone ⊢
      rw [hgone]
      simp only [World.leave]
      omega
  | hasFlushableWork =>
    cases hstep
    refine ⟨balanced_of_exchange h (EventQueue.exchanges_expire w.queue w.clock) fun x => ?_,
      (List.append_nil _).symm⟩
    rw [World.afterExpiry, count_gone_leave]
    simp only [World.leave, World.outstanding, List.count_nil]
    omega
  | markComplete c =>
    cases hstep
    refine ⟨balanced_of_exchange h (EventQueue.exchanges_markComplete w.queue c w.clock)
      fun x => ?_, (List.append_nil _).symm⟩
    simp only [World.outstanding]
    rw [outstanding_map _ _ (batch_complete c)]
  | deliver i =>
    obtain ⟨batch, hbatch, rfl⟩ := step_deliver_cases hstep
    refine ⟨balanced_of_exchange h (EventQueue.exchanges_nil rfl rfl rfl) fun x => ?_,
      (List.append_nil _).symm⟩
    have := count_outstanding_give hbatch x
    rw [count_gone_leave]
    simp only [World.leave, World.give, World.outstanding, List.count_nil] at this ⊢
    omega
  | requeue i delay =>
    obtain ⟨batch, hbatch, hrequeue⟩ := step_requeue_cases hstep
    simp only [World.losses, hbatch]
    obtain ⟨hdead, -, hex⟩ | ⟨hlive, -, hex⟩ :=
      EventQueue.requeue_cases w.queue batch w.clock delay
    · obtain ⟨-, rfl⟩ | ⟨hlive, -⟩ := hrequeue
      · rw [if_pos hdead, List.append_nil]
        refine ⟨balanced_of_exchange h hex fun x => ?_, rfl⟩
        have := count_outstanding_give hbatch x
        rw [count_gone_leave]
        simp only [World.leave, World.give, World.outstanding, List.count_nil] at this ⊢
        omega
      · exact absurd hdead hlive
    · obtain ⟨hdead, -⟩ | ⟨-, rfl⟩ := hrequeue
      · exact absurd hdead hlive
      · rw [if_neg hlive]
        refine ⟨balanced_of_exchange h hex fun x => ?_, rfl⟩
        have hgive := count_outstanding_give hbatch x
        have hparts := count_batch batch x
        rw [count_gone_leave]
        simp only [World.leave, World.give, World.outstanding, List.count_append] at hgive ⊢
        omega
  | requeuePreserveTimestamps i =>
    obtain ⟨batch, hbatch, rfl⟩ := step_requeuePreserveTimestamps_cases hstep
    simp only [World.losses, hbatch]
    refine ⟨balanced_of_exchange h (EventQueue.exchanges_requeuePreserveTimestamps _ batch)
      fun x => ?_, rfl⟩
    have hgive := count_outstanding_give hbatch x
    have hparts := count_batch batch x
    rw [count_gone_leave]
    simp only [World.leave, World.give, World.outstanding, List.count_append] at hgive ⊢
    omega
  | requeueAsCancelled i reason =>
    obtain ⟨batch, hbatch, rfl⟩ := step_requeueAsCancelled_cases hstep
    refine ⟨balanced_of_exchange h (EventQueue.exchanges_requeueAsCancelled _ batch reason)
      fun x => ?_, (List.append_nil _).symm⟩
    have := count_outstanding_give hbatch x
    simp only [World.give, World.outstanding, List.count_nil] at this ⊢
    omega
  | drainChannel c =>
    cases hstep
    refine ⟨balanced_of_exchange h (EventQueue.exchanges_drainChannel w.queue c) fun x => ?_,
      (List.append_nil _).symm⟩
    rw [count_gone_leave]
    simp only [World.leave, World.outstanding, EventQueue.held, List.count_nil]
    omega
  | extendInFlightDeadline c secs =>
    cases hstep
    refine ⟨balanced_of_exchange h
      (EventQueue.exchanges_extendInFlightDeadline w.queue c secs w.clock) fun x => ?_,
      (List.append_nil _).symm⟩
    simp only [World.outstanding]
    rw [outstanding_map _ _ (batch_extend c _ _)]
  | markNativeSteerPending c id =>
    cases hstep
    exact ⟨balanced_of_exchange h (EventQueue.exchanges_markNativeSteerPending w.queue c id)
      fun x => rfl, (List.append_nil _).symm⟩
  | releaseNativeSteer c id =>
    cases hstep
    refine ⟨balanced_of_exchange h (EventQueue.exchanges_releaseNativeSteer w.queue c id)
      fun x => ?_, (List.append_nil _).symm⟩
    rw [count_gone_leave]
    simp only [World.leave, World.outstanding, List.count_nil]
    omega
  | removeEvent c id =>
    cases hstep
    refine ⟨balanced_of_exchange h (EventQueue.exchanges_removeEvent w.queue c id)
      fun x => ?_, (List.append_nil _).symm⟩
    rw [count_gone_leave]
    simp only [World.leave, World.outstanding, List.count_nil]
    omega
  | compactExpiredState =>
    cases hstep
    exact ⟨balanced_of_exchange h (EventQueue.exchanges_nil rfl rfl rfl) fun x => rfl,
      (List.append_nil _).symm⟩

/-! ## Runs -/

open Machine

def ReturnsWhole (w : World) : Action → Prop
  | .requeue i _ => ((w.batch? i).all fun batch =>
      maxRetries < w.queue.attempt batch.channelId || batch.cancelledEvents.isEmpty) = true
  | .requeuePreserveTimestamps i => ((w.batch? i).all fun batch =>
      batch.cancelledEvents.isEmpty) = true
  | _ => True

instance : ∀ w a, Decidable (ReturnsWhole w a)
  | _, .requeue _ _ => inferInstanceAs (Decidable (_ = true))
  | _, .requeuePreserveTimestamps _ => inferInstanceAs (Decidable (_ = true))
  | _, .tick _ | _, .push _ | _, .flushNext _ | _, .hasFlushableWork | _, .markComplete _
  | _, .deliver _ | _, .requeueAsCancelled _ _ | _, .drainChannel _
  | _, .extendInFlightDeadline _ _ | _, .markNativeSteerPending _ _ | _, .releaseNativeSteer _ _
  | _, .removeEvent _ _ | _, .compactExpiredState => isTrue trivial

theorem items_eq_nil {c : Uuid} {events : List BatchEvent} : items c events = [] ↔ events = [] :=
  List.map_eq_nil_iff

theorem losses_eq_nil (w : World) (a : Action) : w.losses a = [] ↔ ReturnsWhole w a := by
  cases a with
  | requeue i delay =>
    simp only [World.losses, ReturnsWhole]
    cases w.batch? i with
    | none => simp
    | some batch =>
      by_cases hdead : maxRetries < w.queue.attempt batch.channelId
      · simp [hdead]
      · simp [hdead, items_eq_nil]
  | requeuePreserveTimestamps i =>
    simp only [World.losses, ReturnsWhole]
    cases w.batch? i with
    | none => simp
    | some batch => simp [items_eq_nil]
  | _ => exact ⟨fun _ => trivial, fun _ => rfl⟩

/-- A run keeps all it has accepted just when every batch that it puts back is without cancelled
events. -/
theorem queue_conserves_iff {mode : DedupMode} {maxTurnDurationSecs : Nat} {actions : List Action}
    {w : World}
    (hrun : run step (.init ((EventQueue.new mode).withInFlightDeadline maxTurnDurationSecs))
      actions = some w) :
    w.Conserved ↔ Meets step ReturnsWhole
      (.init ((EventQueue.new mode).withInFlightDeadline maxTurnDurationSecs)) actions := by
  have hkeeps : w.Conserved ↔ _ ∧ Meets step ReturnsWhole _ actions :=
    run_iff_meets World.Balanced
      (fun w a w' hinv hstep => by
        obtain ⟨hbalanced, hlost⟩ := step_balanced hinv hstep
        refine ⟨hbalanced, ?_⟩
        rw [conserved_iff hbalanced, conserved_iff hinv, hlost, List.append_eq_nil_iff,
          losses_eq_nil])
      (balanced_init mode maxTurnDurationSecs) hrun
  rw [hkeeps, and_iff_right]
  exact (conserved_iff (balanced_init mode maxTurnDurationSecs)).mpr rfl

def demoEvent (id : String) (createdAt : Nat) : QueuedEvent :=
  ⟨1, ⟨id, "ab", createdAt, 9, []⟩, createdAt, "mention"⟩

/-- A batch is put back once and then delivered. -/
theorem queue_conserves_retry : ∃ w, run step
    (.init ((EventQueue.new .queue).withInFlightDeadline 7200))
    [.push (demoEvent "e1" 1), .flushNext 1, .requeue 0 5, .markComplete 1, .tick 10, .flushNext 1,
      .deliver 0] = some w ∧ w.gone.length = 1 ∧ w.Conserved := by
  have hdemo : ((run step (.init ((EventQueue.new .queue).withInFlightDeadline 7200))
    [.push (demoEvent "e1" 1), .flushNext 1, .requeue 0 5, .markComplete 1, .tick 10, .flushNext 1,
      .deliver 0]).any fun w => w.gone.length == 1) = true := by decide +kernel
  obtain ⟨w, hrun, h⟩ := (Option.any_eq_true _ _).mp hdemo
  exact ⟨w, hrun, eq_of_beq h, (queue_conserves_iff hrun).mpr (by decide +kernel)⟩

/-- A turn is cancelled, and the merged batch that follows fails and is put back. -/
theorem requeue_loses_cancelled :
    ¬ ∀ (mode : DedupMode) (maxTurnDurationSecs : Nat) (actions : List Action) (w : World),
      run step (.init ((EventQueue.new mode).withInFlightDeadline maxTurnDurationSecs)) actions =
        some w → w.Conserved := by
  have hdemo : ((run step (.init ((EventQueue.new .queue).withInFlightDeadline 7200))
    [.push (demoEvent "e1" 1), .flushNext 1, .requeueAsCancelled 0 .steer, .markComplete 1,
      .push (demoEvent "e2" 2), .flushNext 1, .requeue 0 5]).any fun w =>
        let x := Item.mk 1 (demoEvent "e1" 1).toBatch
        w.accepted.count x == 1 && (w.queue.held x.channelId).count x == 0 &&
          w.outstanding.count x == 0 && (w.gone.map Prod.snd).count x == 0) = true := by
    decide +kernel
  obtain ⟨w, hrun, h⟩ := (Option.any_eq_true _ _).mp hdemo
  simp only [Bool.and_eq_true, beq_iff_eq] at h
  obtain ⟨⟨⟨haccepted, hheld⟩, houtstanding⟩, hgone⟩ := h
  intro hall
  have hcount := hall _ _ _ w hrun (Item.mk 1 (demoEvent "e1" 1).toBatch)
  rw [haccepted, hheld, houtstanding, hgone] at hcount
  cases hcount

end Vingilot.Acp
