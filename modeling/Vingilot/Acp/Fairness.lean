import Vingilot.Acp.Readiness

/-!
# The oldest event is flushed first

A flush compares the heads of the queues. The head is the oldest event as long as each queue is in
the order of receipt, and a batch or a withheld event that goes back to the front may break it.
-/

namespace Vingilot.Acp

open Machine

def Received (events : List QueuedEvent) : Prop :=
  events.Pairwise fun a b => a.receivedAt ≤ b.receivedAt

instance (events : List QueuedEvent) : Decidable (Received events) :=
  inferInstanceAs (Decidable (events.Pairwise _))

variable {q q' : EventQueue} {c : Uuid} {e : QueuedEvent} {now : Nat}

namespace EventQueue

def eligible (q : EventQueue) (now : Nat) (c : Uuid) : Bool :=
  !q.isInFlight c && (q.retryAfter.get? c).all (· ≤ now)

def OldestFirst (q : EventQueue) (now : Nat) (pick : Uuid) : Prop :=
  ∀ q' batch, q.flushNext now pick = some (q', some batch) →
    (∀ c, (q.expire now).eligible now c → (q.expire now).queueOf c = []) ∨
      (q.expire now).eligible now batch.channelId ∧
        ∃ e ∈ (q.expire now).queueOf batch.channelId, ∀ c, (q.expire now).eligible now c →
          ∀ e' ∈ (q.expire now).queueOf c, e.receivedAt ≤ e'.receivedAt

def Ordered (q : EventQueue) : Prop := ∀ c, Received (q.queueOf c)

/-! ## One flush -/

theorem headReceivedAt_le (h : q.Ordered) (he : e ∈ q.queueOf c) :
    q.headReceivedAt c ≤ e.receivedAt := by
  have hc := h c
  unfold headReceivedAt
  cases hqueue : q.queueOf c with
  | nil =>
    rw [hqueue] at he
    cases he
  | cons first rest =>
    rw [hqueue] at he hc
    rcases List.mem_cons.mp he with rfl | he
    · exact Nat.le_refl _
    · exact List.rel_of_pairwise_cons hc he

theorem ready_eq (q : EventQueue) (now : Nat) (c : Uuid) :
    q.ready now c = (!(q.queueOf c).isEmpty && q.eligible now c) := by
  rw [ready, eligible, Bool.and_assoc]

theorem mem_readyChannels (he : e ∈ q.queueOf c) (heligible : q.eligible now c = true) :
    c ∈ q.readyChannels now := by
  refine List.mem_filter.mpr ⟨?_, ?_⟩
  · rw [queueOf] at he
    cases hget : q.queues.get? c with
    | none =>
      rw [hget] at he
      cases he
    | some l => exact List.mem_map_of_mem ((Table.mem_toList _ c l).mpr hget)
  · rw [ready_eq, heligible, Bool.and_true, Bool.not_eq_true', List.isEmpty_eq_false_iff]
    exact List.ne_nil_of_mem he

theorem oldestFirst_of_ordered (h : (q.expire now).Ordered) (pick : Uuid) :
    q.OldestFirst now pick := by
  intro q' batch hflush
  by_cases hready : (q.expire now).readyChannels now = []
  · left
    intro c heligible
    refine List.eq_nil_iff_forall_not_mem.mpr fun e he => ?_
    have hmem := mem_readyChannels he heligible
    rw [hready] at hmem
    cases hmem
  · right
    unfold flushNext at hflush
    simp only [if_pos hready] at hflush
    split_ifs at hflush with hpick
    cases hflush
    obtain ⟨hmem, holdest⟩ := hpick
    have hpicked := (List.mem_filter.mp hmem).2
    rw [ready_eq, Bool.and_eq_true, Bool.not_eq_true', List.isEmpty_eq_false_iff] at hpicked
    refine ⟨hpicked.2, ?_⟩
    obtain ⟨first, rest, hqueue⟩ := List.exists_cons_of_ne_nil hpicked.1
    refine ⟨first, by show first ∈ (q.expire now).queueOf pick; rw [hqueue]; simp, ?_⟩
    intro c heligible e he
    have hhead := of_decide_eq_true (List.all_eq_true.mp holdest c (mem_readyChannels he heligible))
    have hfirst : (q.expire now).headReceivedAt pick = first.receivedAt := by
      rw [headReceivedAt, hqueue]
      rfl
    exact hfirst ▸ hhead.trans (headReceivedAt_le h he)

/-! ## What keeps the order -/

def FitsFront (q : EventQueue) (c : Uuid) (events : List QueuedEvent) : Prop :=
  Received ((events ++ q.queueOf c).take maxPendingPerChannel)

instance (q : EventQueue) (c : Uuid) (events : List QueuedEvent) :
    Decidable (q.FitsFront c events) := inferInstanceAs (Decidable (Received _))

theorem Ordered.of_sublist (h : q.Ordered) (hsub : ∀ c, (q'.queueOf c).Sublist (q.queueOf c)) :
    q'.Ordered :=
  fun c => (h c).sublist (hsub c)

theorem Ordered.of_queues (h : q.Ordered) (hqueues : q'.queues = q.queues) : q'.Ordered := by
  intro c
  rw [queueOf, hqueues]
  exact h c

theorem Ordered.write (h : q.Ordered) {l : List QueuedEvent} (hl : Received l)
    (hqueues : ∀ c', q'.queueOf c' = if c' = c then l else q.queueOf c') : q'.Ordered := by
  intro c'
  rw [hqueues]
  split_ifs
  · exact hl
  · exact h c'

theorem Ordered.pushFront (h : q.Ordered) {events : List QueuedEvent}
    (hevents : q.FitsFront c events) : (q.pushFront c events).Ordered :=
  h.write hevents fun c' => queueOf_pushFront q c c' events

theorem Ordered.expireChannel (h : q.Ordered) (hback : q.FitsFront c (q.withheldOf c)) :
    (q.expireChannel c).Ordered := by
  obtain ⟨-, hexpire⟩ | ⟨entries, hwithheld, hexpire⟩ := expireChannel_cases q c
  · rw [hexpire]
    exact h.of_queues rfl
  · rw [hexpire]
    have hof : q.withheldOf c = entries := by simp [withheldOf, hwithheld]
    rw [hof] at hback
    have hland : { q.land c with
        withheldNativeSteer := q.withheldNativeSteer.remove c }.Ordered := h.of_queues rfl
    exact hland.pushFront hback

theorem withheldOf_expireChannel (q : EventQueue) (c c' : Uuid) :
    (q.expireChannel c).withheldOf c' = if c' = c then [] else q.withheldOf c' := by
  obtain ⟨hwithheld, hexpire⟩ | ⟨entries, -, hexpire⟩ := expireChannel_cases q c
  · rw [hexpire]
    show q.withheldOf c' = _
    split_ifs with hc
    · rw [hc, withheldOf, hwithheld, Option.getD_none]
    · rfl
  · rw [hexpire, withheldOf_pushFront, withheldOf]
    simp only [Table.get?_remove]
    split_ifs
    · rfl
    · rfl

theorem queueOf_expireChannel_of_ne (q : EventQueue) {c' : Uuid} (hc : c' ≠ c) :
    (q.expireChannel c).queueOf c' = q.queueOf c' := by
  obtain ⟨-, hexpire⟩ | ⟨entries, -, hexpire⟩ := expireChannel_cases q c
  · rw [hexpire]
    rfl
  · rw [hexpire, queueOf_pushFront, if_neg hc]
    rfl

theorem Ordered.expireAll (h : q.Ordered) {cs : List Uuid}
    (hback : ∀ c ∈ cs, q.FitsFront c (q.withheldOf c)) :
    (cs.foldl EventQueue.expireChannel q).Ordered := by
  induction cs generalizing q with
  | nil => exact h
  | cons c₁ cs ih =>
    have hone := h.expireChannel (hback c₁ List.mem_cons_self)
    refine ih hone fun c hc => ?_
    rw [FitsFront, withheldOf_expireChannel]
    by_cases hsame : c = c₁
    · rw [if_pos hsame]
      exact (hone c).sublist (List.take_sublist _ _)
    · rw [if_neg hsame, queueOf_expireChannel_of_ne q hsame]
      exact hback c (List.mem_cons_of_mem _ hc)

theorem Ordered.expire (h : q.Ordered) (hback : ∀ c ∈ q.expired now, q.FitsFront c (q.withheldOf c)) :
    (q.expire now).Ordered := h.expireAll hback

theorem Ordered.push (h : q.Ordered)
    (hlast : ∀ e' ∈ q.queueOf e.channelId, e'.receivedAt ≤ e.receivedAt) :
    (q.push e).1.Ordered := by
  unfold EventQueue.push
  split_ifs with hdrop
  · exact h
  have hroom : (if maxPendingPerChannel ≤ (q.queueOf e.channelId).length
      then (q.queueOf e.channelId).drop 1 else q.queueOf e.channelId).Sublist
        (q.queueOf e.channelId) := by
    split_ifs
    · exact List.drop_sublist 1 _
    · exact List.Sublist.refl _
  refine h.write ?_ fun c' => queueOf_putQueue q e.channelId c' _
  refine List.pairwise_append.mpr ⟨(h e.channelId).sublist hroom, List.pairwise_singleton .., ?_⟩
  intro e' he' last hlast'
  rw [List.mem_singleton.mp hlast']
  exact hlast e' (hroom.subset he')

theorem Ordered.flushNext {pick : Uuid} {batch : Option FlushBatch} (h : (q.expire now).Ordered)
    (hflush : q.flushNext now pick = some (q', batch)) : q'.Ordered := by
  unfold EventQueue.flushNext at hflush
  dsimp only at hflush
  split_ifs at hflush
  · cases hflush
    have hrest := (h pick).sublist (List.drop_sublist maxBatchEvents _)
    exact h.write hrest (queueOf_setQueue (q.expire now) pick · _)
  · cases hflush
    exact h.of_queues rfl
  · cases hflush
    exact h

theorem Ordered.requeue (h : q.Ordered) {batch : FlushBatch} (now delay : Nat)
    (hback : maxRetries < q.attempt batch.channelId ∨ q.FitsFront batch.channelId batch.queued) :
    (q.requeue batch now delay).1.Ordered := by
  unfold EventQueue.requeue
  dsimp only
  split_ifs with hdead
  · exact h.of_queues rfl
  · have hback' := hback.resolve_left hdead
    have hcounted : { q with
        retryCounts := q.retryCounts.set batch.channelId (q.attempt batch.channelId) }.Ordered :=
      h.of_queues rfl
    exact (hcounted.pushFront hback').of_queues rfl

theorem Ordered.drainChannel (h : q.Ordered) (c : Uuid) : (q.drainChannel c).1.Ordered := by
  refine h.of_sublist fun c' => ?_
  simp only [EventQueue.drainChannel, queueOf, Table.get?_remove]
  split_ifs
  · exact List.nil_sublist _
  · exact List.Sublist.refl _

theorem Ordered.markNativeSteerPending (h : q.Ordered) (c : Uuid) (id : String) :
    (q.markNativeSteerPending c id).1.Ordered := by
  unfold EventQueue.markNativeSteerPending
  cases (q.queueOf c).find? (hasId id) with
  | none => exact h
  | some e =>
    exact h.write ((h c).sublist List.eraseP_sublist) fun c' => by
      rw [queueOf_setWithheld, queueOf_setQueue]

theorem Ordered.releaseNativeSteer (h : q.Ordered) {id : String}
    (hback : ∀ e ∈ (q.withheldOf c).find? (hasId id), q.FitsFront c [e]) :
    (q.releaseNativeSteer c id).Ordered := by
  unfold EventQueue.releaseNativeSteer
  cases hfind : (q.withheldOf c).find? (hasId id) with
  | none => exact h
  | some e =>
    refine (h.of_queues (queues_setWithheld q c _)).pushFront ?_
    rw [FitsFront, queueOf_setWithheld]
    exact hback e hfind

theorem Ordered.removeEvent (h : q.Ordered) (c : Uuid) (id : String) :
    (q.removeEvent c id).Ordered :=
  h.write ((h c).sublist List.filter_sublist) fun c' => (of_removeEvent q c c' id).1

end EventQueue

/-! ## Runs -/

/-- An event that is pushed has been received after all that came before it, and what goes back to
the front of a queue has been received before all that is there. -/
def KeepsOrder (w : World) : Action → Prop
  | .push e => ∀ x ∈ w.accepted, x.event.receivedAt ≤ e.receivedAt
  | .flushNext _ | .hasFlushableWork =>
    ∀ c ∈ w.queue.expired w.clock, w.queue.FitsFront c (w.queue.withheldOf c)
  | .requeue i _ => ∀ batch ∈ w.batch? i,
      maxRetries < w.queue.attempt batch.channelId ∨
        w.queue.FitsFront batch.channelId batch.queued
  | .requeuePreserveTimestamps i => ∀ batch ∈ w.batch? i,
      w.queue.FitsFront batch.channelId batch.queued
  | .releaseNativeSteer c id => ∀ e ∈ (w.queue.withheldOf c).find? (EventQueue.hasId id),
      w.queue.FitsFront c [e]
  | _ => True

instance : ∀ w a, Decidable (KeepsOrder w a)
  | _, .push _ => inferInstanceAs (Decidable (∀ x ∈ _, _))
  -- An id is a vector of bits, which have an instance of their own that goes through all of them.
  | w, .flushNext _ | w, .hasFlushableWork =>
    List.decidableBAll (fun c => w.queue.FitsFront c (w.queue.withheldOf c)) _
  | _, .requeue _ _ | _, .requeuePreserveTimestamps _ | _, .releaseNativeSteer _ _ =>
    inferInstanceAs (Decidable (∀ x ∈ _, _))
  | _, .tick _ | _, .markComplete _ | _, .deliver _ | _, .requeueAsCancelled _ _
  | _, .drainChannel _ | _, .extendInFlightDeadline _ _ | _, .markNativeSteerPending _ _
  | _, .removeEvent _ _ | _, .compactExpiredState => isTrue trivial

theorem mem_accepted_of_mem_queueOf {w : World} (h : w.Balanced) (he : e ∈ w.queue.queueOf c) :
    Item.mk c e.toBatch ∈ w.accepted := by
  have hheld : Item.mk c e.toBatch ∈ w.queue.held c := by
    refine List.mem_append_left _ (List.mem_append_left _ ?_)
    exact List.mem_map_of_mem (List.mem_map_of_mem he)
  have hcount := List.count_pos_iff.mpr hheld
  have hbalance := h (Item.mk c e.toBatch)
  dsimp only at hbalance
  exact List.count_pos_iff.mp (by omega)

theorem step_ordered {w w' : World} {a : Action} (h : w.queue.Ordered) (hbalanced : w.Balanced)
    (hkeeps : KeepsOrder w a) (hstep : step w a = some w') : w'.queue.Ordered := by
  cases a with
  | tick nanos =>
    cases hstep
    exact h
  | push e =>
    obtain ⟨-, rfl⟩ | ⟨-, rfl⟩ := step_push_cases hstep
    · exact h
    · exact h.push fun e' he' => hkeeps _ (mem_accepted_of_mem_queueOf hbalanced he')
  | flushNext pick =>
    obtain ⟨q, hflush, rfl⟩ | ⟨q, batch, hflush, rfl⟩ := step_flushNext_cases hstep
    · exact (h.expire hkeeps).flushNext hflush
    · exact (h.expire hkeeps).flushNext hflush
  | hasFlushableWork =>
    cases hstep
    exact h.expire hkeeps
  | markComplete c =>
    cases hstep
    obtain ⟨_, _, hcomplete⟩ := EventQueue.markComplete_cases w.queue c w.clock
    exact h.of_queues (by rw [hcomplete]; rfl)
  | deliver i =>
    obtain ⟨batch, -, rfl⟩ := step_deliver_cases hstep
    exact h
  | requeue i delay =>
    obtain ⟨batch, hbatch, hrequeue⟩ := step_requeue_cases hstep
    have hback := h.requeue w.clock delay (hkeeps batch hbatch)
    obtain ⟨-, rfl⟩ | ⟨-, rfl⟩ := hrequeue
    · exact hback
    · exact hback
  | requeuePreserveTimestamps i =>
    obtain ⟨batch, hbatch, rfl⟩ := step_requeuePreserveTimestamps_cases hstep
    exact h.pushFront (hkeeps batch hbatch)
  | requeueAsCancelled i reason =>
    obtain ⟨batch, -, rfl⟩ := step_requeueAsCancelled_cases hstep
    exact h.of_queues rfl
  | drainChannel c =>
    cases hstep
    exact h.drainChannel c
  | extendInFlightDeadline c maxTurnSecs =>
    cases hstep
    obtain hsame | ⟨_, _, -, -, hextend⟩ :=
      EventQueue.extendInFlightDeadline_cases w.queue c maxTurnSecs w.clock
    · exact h.of_queues (by rw [hsame])
    · exact h.of_queues (by rw [hextend])
  | markNativeSteerPending c id =>
    cases hstep
    exact h.markNativeSteerPending c id
  | releaseNativeSteer c id =>
    cases hstep
    exact h.releaseNativeSteer hkeeps
  | removeEvent c id =>
    cases hstep
    exact h.removeEvent c id
  | compactExpiredState =>
    cases hstep
    exact h.of_queues rfl

/-- In a run that keeps the order, each flush takes the channel of the oldest event. -/
theorem flush_oldest_first {mode : DedupMode} {maxTurnDurationSecs : Nat} {actions : List Action}
    {w : World}
    (hrun : run step (.init ((EventQueue.new mode).withInFlightDeadline maxTurnDurationSecs))
      actions = some w)
    (hkeeps : Meets step KeepsOrder
      (.init ((EventQueue.new mode).withInFlightDeadline maxTurnDurationSecs)) actions)
    (pick : Uuid) (hflush : KeepsOrder w (.flushNext pick)) :
    w.queue.OldestFirst w.clock pick := by
  have hinv : w.Balanced ∧ w.queue.Ordered :=
    run_invariant_of_meets (fun w => w.Balanced ∧ w.queue.Ordered)
      (fun w a w' h hkeeps hstep =>
        ⟨(step_balanced h.1 hstep).1, step_ordered h.2 h.1 hkeeps hstep⟩)
      ⟨balanced_init mode maxTurnDurationSecs, fun c => List.Pairwise.nil⟩ hkeeps hrun
  exact EventQueue.oldestFirst_of_ordered (hinv.2.expire hflush) pick

def demoReceived (id : String) (channelId : Uuid) (createdAt receivedAt : Nat) : QueuedEvent :=
  ⟨channelId, ⟨id, "ab", createdAt, 9, []⟩, receivedAt, "mention"⟩

def putBack : List Action :=
  [.push (demoReceived "e1" 1 10 0), .tick 1, .push (demoReceived "f" 2 5 1), .flushNext 1,
    .tick 1, .push (demoReceived "e2" 1 20 2), .requeuePreserveTimestamps 0, .markComplete 1]

theorem flush_oldest_first_put_back : ∃ w,
    run step (.init ((EventQueue.new .queue).withInFlightDeadline 7200)) putBack = some w ∧
      w.queue.OldestFirst w.clock 1 := by
  have hdemo : ((run step (.init ((EventQueue.new .queue).withInFlightDeadline 7200))
      putBack).any fun w => KeepsOrder w (.flushNext 1)) = true := by
    decide +kernel
  obtain ⟨w, hrun, h⟩ := (Option.any_eq_true _ _).mp hdemo
  exact ⟨w, hrun, flush_oldest_first hrun (by decide +kernel) 1 (of_decide_eq_true h)⟩

/-- The second event of the channel has been created before the first. The batch has them in that
order, and goes back so. -/
def putBackSorted : List Action :=
  [.push (demoReceived "e1" 1 20 0), .tick 1, .push (demoReceived "f" 2 5 1), .tick 1,
    .push (demoReceived "e2" 1 10 2), .flushNext 1, .requeuePreserveTimestamps 0, .markComplete 1]

/-- `f` is flushed before `e1`. -/
theorem requeue_hides_oldest :
    ¬ ∀ (mode : DedupMode) (maxTurnDurationSecs : Nat) (actions : List Action) (w : World),
      run step (.init ((EventQueue.new mode).withInFlightDeadline maxTurnDurationSecs)) actions =
        some w → ∀ pick, w.queue.OldestFirst w.clock pick := by
  have hdemo : ((run step (.init ((EventQueue.new .queue).withInFlightDeadline 7200))
      putBackSorted).any fun w =>
        let q := w.queue.expire w.clock
        ((w.queue.flushNext w.clock 2).any fun x => x.2.any fun batch => batch.channelId == 2) &&
          (q.eligible w.clock 1 && (q.queueOf 1).any (·.receivedAt == 0) &&
            (q.queueOf 2).all (·.receivedAt == 1))) = true := by
    decide +kernel
  obtain ⟨w, hrun, h⟩ := (Option.any_eq_true _ _).mp hdemo
  simp only [Bool.and_eq_true, List.any_eq_true, List.all_eq_true, beq_iff_eq,
    Option.any_eq_true] at h
  obtain ⟨⟨⟨q', taken⟩, hflush, batch, hbatch, hchannel⟩, ⟨heligible, oldest⟩, hother⟩ := h
  obtain ⟨e, he, hreceived⟩ := oldest
  intro hall
  dsimp only at hbatch
  subst hbatch
  obtain hempty | ⟨-, first, hfirst, hleast⟩ := hall _ _ _ w hrun 2 q' batch hflush
  · rw [hempty 1 heligible] at he
    cases he
  · rw [hchannel] at hfirst
    have hle := hleast 1 heligible e he
    rw [hother first hfirst, hreceived] at hle
    cases hle

end Vingilot.Acp
