import Vingilot.Acp.Conservation

/-!
# The discipline of the event queue

What every operation keeps, at any clock value: the cap of the queues, one deadline for each channel
in flight, and at most one batch that is out before its deadline. The batches themselves are bounded
and sorted when they are drained, and only as good as what was cancelled when they are dispatched
again.
-/

namespace Vingilot.Acp

variable {q' : EventQueue} {batch : FlushBatch}

namespace EventQueue

structure WellFormed (q : EventQueue) : Prop where
  capped : ∀ c, (q.queueOf c).length ≤ maxPendingPerChannel
  tables : ∀ c, (q.inFlightChannels.get? c).isSome = (q.inFlightDeadlines.get? c).isSome
  cancelled : ∀ c l, q.cancelledBatches.get? c = some l → l ≠ []
  deadline : 0 < q.inFlightDeadline

theorem WellFormed.of_same {q : EventQueue} (h : q.WellFormed) (hqueues : q'.queues = q.queues)
    (hchannels : q'.inFlightChannels = q.inFlightChannels)
    (hdeadlines : q'.inFlightDeadlines = q.inFlightDeadlines)
    (hcancelled : q'.cancelledBatches = q.cancelledBatches)
    (hdeadline : q'.inFlightDeadline = q.inFlightDeadline) : q'.WellFormed where
  capped c := by
    rw [queueOf, hqueues]
    exact h.capped c
  tables c := by
    rw [hchannels, hdeadlines]
    exact h.tables c
  cancelled c l hget := by
    rw [hcancelled] at hget
    exact h.cancelled c l hget
  deadline := by
    rw [hdeadline]
    exact h.deadline

variable {q : EventQueue} (h : q.WellFormed)

include h

theorem WellFormed.putQueue (c : Uuid) {l : List QueuedEvent}
    (hl : l.length ≤ maxPendingPerChannel) : (q.putQueue c l).WellFormed where
  capped c' := by
    rw [queueOf_putQueue]
    split_ifs
    · exact hl
    · exact h.capped c'
  tables := h.tables
  cancelled := h.cancelled
  deadline := h.deadline

theorem WellFormed.setQueue (c : Uuid) {l : List QueuedEvent}
    (hl : l.length ≤ maxPendingPerChannel) : (q.setQueue c l).WellFormed where
  capped c' := by
    rw [queueOf_setQueue]
    split_ifs
    · exact hl
    · exact h.capped c'
  tables := by
    unfold EventQueue.setQueue
    split_ifs
    · exact h.tables
    · exact h.tables
  cancelled := by
    unfold EventQueue.setQueue
    split_ifs
    · exact h.cancelled
    · exact h.cancelled
  deadline := by
    unfold EventQueue.setQueue
    split_ifs
    · exact h.deadline
    · exact h.deadline

theorem WellFormed.setWithheld (c : Uuid) (l : List QueuedEvent) :
    (q.setWithheld c l).WellFormed := by
  unfold EventQueue.setWithheld
  split_ifs
  · exact h.of_same rfl rfl rfl rfl rfl
  · exact h.of_same rfl rfl rfl rfl rfl

theorem WellFormed.pushFront (c : Uuid) (l : List QueuedEvent) : (q.pushFront c l).WellFormed :=
  h.putQueue c (List.length_take_le _ _)

theorem WellFormed.land (c : Uuid) : (q.land c).WellFormed where
  capped := h.capped
  tables c' := by
    simp only [EventQueue.land, Table.get?_remove]
    split_ifs
    · rfl
    · exact h.tables c'
  cancelled := h.cancelled
  deadline := h.deadline

theorem WellFormed.takeOff (c : Uuid) (now : Nat) : (q.takeOff c now).WellFormed where
  capped := h.capped
  tables c' := by
    simp only [EventQueue.takeOff, Table.get?_set]
    split_ifs
    · rfl
    · exact h.tables c'
  cancelled := h.cancelled
  deadline := h.deadline

theorem WellFormed.clearCancelled (c : Uuid) : (q.clearCancelled c).WellFormed where
  capped := h.capped
  tables := h.tables
  cancelled c' l hget := by
    simp only [EventQueue.clearCancelled, Table.get?_remove] at hget
    split_ifs at hget
    exact h.cancelled c' l hget
  deadline := h.deadline

/-! ## The operations -/

theorem WellFormed.push (e : QueuedEvent) : (q.push e).1.WellFormed := by
  unfold EventQueue.push
  dsimp only
  have hlen := h.capped e.channelId
  split_ifs with hdrop hfull
  · exact h
  · refine h.putQueue _ ?_
    have : 0 < maxPendingPerChannel := by decide
    rw [List.length_append, List.length_drop, List.length_singleton]
    omega
  · refine h.putQueue _ ?_
    rw [List.length_append, List.length_singleton]
    omega

theorem WellFormed.expireChannel (c : Uuid) : (q.expireChannel c).WellFormed := by
  obtain ⟨-, hexpire⟩ | ⟨entries, -, hexpire⟩ := expireChannel_cases q c
  · rw [hexpire]
    exact h.land c
  · rw [hexpire]
    have hcleared : ({ q.land c with
        withheldNativeSteer := q.withheldNativeSteer.remove c } : EventQueue).WellFormed :=
      (h.land c).of_same rfl rfl rfl rfl rfl
    exact hcleared.pushFront c entries

omit h in
theorem WellFormed.expireAll {q : EventQueue} (h : q.WellFormed) (cs : List Uuid) :
    (cs.foldl EventQueue.expireChannel q).WellFormed := by
  induction cs generalizing q with
  | nil => exact h
  | cons c cs ih => exact ih (h.expireChannel c)

theorem WellFormed.expire (now : Nat) : (q.expire now).WellFormed := h.expireAll _

theorem WellFormed.drainReady (c : Uuid) (now : Nat) : (q.drainReady c now).1.WellFormed := by
  refine ((h.setQueue c ?_).takeOff c now).clearCancelled c
  have := h.capped c
  rw [List.length_drop]
  omega

theorem WellFormed.redispatch (c : Uuid) (now : Nat) : (q.redispatch c now).1.WellFormed :=
  (h.clearCancelled c).takeOff c now

theorem WellFormed.markComplete (c : Uuid) (now : Nat) : (q.markComplete c now).WellFormed := by
  obtain ⟨_, _, hcomplete⟩ := markComplete_cases q c now
  rw [hcomplete]
  exact (h.land c).of_same rfl rfl rfl rfl rfl

theorem WellFormed.requeue (batch : FlushBatch) (now delay : Nat) :
    (q.requeue batch now delay).1.WellFormed := by
  unfold EventQueue.requeue
  dsimp only
  split_ifs
  · exact h.of_same rfl rfl rfl rfl rfl
  · exact (h.pushFront batch.channelId batch.queued).of_same rfl rfl rfl rfl rfl

theorem WellFormed.requeueAsCancelled (hbatch : batch.events ≠ []) (reason : CancelReason) :
    (q.requeueAsCancelled batch reason).WellFormed where
  capped := h.capped
  tables := h.tables
  cancelled c l hget := by
    simp only [EventQueue.requeueAsCancelled, Table.get?_set] at hget
    split_ifs at hget
    · cases hget
      intro hnil
      exact hbatch (List.append_eq_nil_iff.mp hnil).2
    · exact h.cancelled c l hget
  deadline := h.deadline

theorem WellFormed.drainChannel (c : Uuid) : (q.drainChannel c).1.WellFormed where
  capped c' := by
    simp only [EventQueue.drainChannel, queueOf, Table.get?_remove]
    split_ifs
    · rw [Option.getD_none, List.length_nil]
      exact Nat.zero_le _
    · exact h.capped c'
  tables := h.tables
  cancelled c' l hget := by
    simp only [EventQueue.drainChannel, Table.get?_remove] at hget
    split_ifs at hget
    exact h.cancelled c' l hget
  deadline := h.deadline

theorem WellFormed.extendInFlightDeadline (c : Uuid) (maxTurnSecs now : Nat) :
    (q.extendInFlightDeadline c maxTurnSecs now).WellFormed := by
  obtain hsame | ⟨current, extended, hcurrent, -, hextend⟩ :=
    extendInFlightDeadline_cases q c maxTurnSecs now
  · rw [hsame]
    exact h
  · rw [hextend]
    refine ⟨h.capped, fun c' => ?_, h.cancelled, h.deadline⟩
    have htables := h.tables c'
    simp only [Table.get?_set]
    split_ifs with hc
    · rw [htables, hc, hcurrent]
      rfl
    · exact htables

theorem WellFormed.markNativeSteerPending (c : Uuid) (id : String) :
    (q.markNativeSteerPending c id).1.WellFormed := by
  unfold EventQueue.markNativeSteerPending
  cases (q.queueOf c).find? (hasId id) with
  | none => exact h
  | some e =>
    refine (h.setQueue c ?_).setWithheld c _
    exact (List.length_eraseP_le).trans (h.capped c)

theorem WellFormed.releaseNativeSteer (c : Uuid) (id : String) :
    (q.releaseNativeSteer c id).WellFormed := by
  unfold EventQueue.releaseNativeSteer
  cases (q.withheldOf c).find? (hasId id) with
  | none => exact h
  | some e => exact (h.setWithheld c _).pushFront c [e]

theorem WellFormed.removeEvent (c : Uuid) (id : String) : (q.removeEvent c id).WellFormed := by
  obtain ⟨r, hr, hfirst⟩ : ∃ r : EventQueue,
      r = (if (q.withheldNativeSteer.get? c).isSome then
        q.setWithheld c ((q.withheldOf c).filter fun e => !hasId id e) else q) ∧
      r.WellFormed := by
    refine ⟨_, rfl, ?_⟩
    split_ifs
    · exact h.setWithheld c _
    · exact h
  unfold EventQueue.removeEvent
  rw [← hr]
  dsimp only
  split_ifs
  · exact hfirst.setQueue c ((List.length_filter_le _ _).trans (hfirst.capped c))
  · exact hfirst

end EventQueue

/-! ## The deadlines -/

variable {now : Nat} {pick : Uuid}

namespace EventQueue

variable (q : EventQueue) (c c' : Uuid)

@[simp]
theorem inFlightDeadlines_setQueue (l : List QueuedEvent) :
    (q.setQueue c l).inFlightDeadlines = q.inFlightDeadlines := by
  unfold setQueue
  split_ifs <;> rfl

@[simp]
theorem inFlightDeadlines_setWithheld (l : List QueuedEvent) :
    (q.setWithheld c l).inFlightDeadlines = q.inFlightDeadlines := by
  unfold setWithheld
  split_ifs <;> rfl

@[simp]
theorem inFlightDeadlines_pushFront (l : List QueuedEvent) :
    (q.pushFront c l).inFlightDeadlines = q.inFlightDeadlines := rfl

theorem inFlightDeadlines_push (e : QueuedEvent) :
    (q.push e).1.inFlightDeadlines = q.inFlightDeadlines := by
  unfold push
  split_ifs <;> rfl

theorem inFlightDeadlines_requeue (batch : FlushBatch) (now delay : Nat) :
    (q.requeue batch now delay).1.inFlightDeadlines = q.inFlightDeadlines := by
  unfold requeue
  dsimp only
  split_ifs <;> rfl

theorem inFlightDeadlines_markNativeSteerPending (id : String) :
    (q.markNativeSteerPending c id).1.inFlightDeadlines = q.inFlightDeadlines := by
  unfold markNativeSteerPending
  cases (q.queueOf c).find? (hasId id) with
  | none => rfl
  | some e => simp

theorem inFlightDeadlines_releaseNativeSteer (id : String) :
    (q.releaseNativeSteer c id).inFlightDeadlines = q.inFlightDeadlines := by
  unfold releaseNativeSteer
  cases (q.withheldOf c).find? (hasId id) with
  | none => rfl
  | some e => simp

theorem inFlightDeadlines_removeEvent (id : String) :
    (q.removeEvent c id).inFlightDeadlines = q.inFlightDeadlines := by
  unfold removeEvent
  dsimp only
  split_ifs <;> simp

theorem inFlightDeadlines_expireChannel :
    (q.expireChannel c).inFlightDeadlines = q.inFlightDeadlines.remove c := by
  obtain ⟨-, hexpire⟩ | ⟨entries, -, hexpire⟩ := expireChannel_cases q c
  · rw [hexpire]
    rfl
  · rw [hexpire]
    rfl

theorem inFlightDeadlines_expireAll (cs : List Uuid) :
    (cs.foldl expireChannel q).inFlightDeadlines.get? c =
      if c ∈ cs then none else q.inFlightDeadlines.get? c := by
  induction cs generalizing q with
  | nil => simp
  | cons c₁ cs ih =>
    rw [List.foldl_cons, ih, inFlightDeadlines_expireChannel, Table.get?_remove]
    by_cases hc : c = c₁
    · simp [hc]
    · simp only [List.mem_cons, hc, false_or, if_false]

theorem inFlightDeadlines_expire (now : Nat) :
    (q.expire now).inFlightDeadlines.get? c =
      (q.inFlightDeadlines.get? c).filter fun d => now < d := by
  have hmem : c ∈ q.expired now ↔ ∃ d, q.inFlightDeadlines.get? c = some d ∧ d ≤ now := by
    simp [expired, Table.mem_toList]
  rw [expire, inFlightDeadlines_expireAll]
  simp only [hmem]
  cases q.inFlightDeadlines.get? c with
  | none => simp
  | some d =>
    by_cases hd : d ≤ now
    · simp [hd, Option.filter]
    · simp [hd, Option.filter]

theorem inFlightDeadline_expireChannel :
    (q.expireChannel c).inFlightDeadline = q.inFlightDeadline := by
  obtain ⟨-, hexpire⟩ | ⟨entries, -, hexpire⟩ := expireChannel_cases q c
  · rw [hexpire]
    rfl
  · rw [hexpire]
    rfl

theorem inFlightDeadline_expire (now : Nat) :
    (q.expire now).inFlightDeadline = q.inFlightDeadline := by
  rw [expire]
  induction q.expired now generalizing q with
  | nil => rfl
  | cons c cs ih => rw [List.foldl_cons, ih, inFlightDeadline_expireChannel]

theorem flushNext_cases {q : EventQueue} {batch : Option FlushBatch}
    (h : q.flushNext now pick = some (q', batch)) :
    (batch = none ∧ q' = q.expire now ∧ (q.expire now).readyChannels now = [] ∧
      (q.expire now).cancelledChannels = []) ∨
    (batch = some ((q.expire now).drainReady pick now).2 ∧
      q' = ((q.expire now).drainReady pick now).1 ∧ (q.expire now).readyChannels now ≠ [] ∧
      pick ∈ (q.expire now).readyChannels now) ∨
    (batch = some ((q.expire now).redispatch pick now).2 ∧
      q' = ((q.expire now).redispatch pick now).1 ∧ (q.expire now).readyChannels now = [] ∧
      pick ∈ (q.expire now).cancelledChannels) := by
  unfold flushNext at h
  dsimp only at h
  split_ifs at h with hready hpick hcancelled hpick
  · cases h
    exact .inr (.inl ⟨rfl, rfl, hready, hpick.1⟩)
  · cases h
    exact .inr (.inr ⟨rfl, rfl, not_not.mp hready, hpick⟩)
  · cases h
    exact .inl ⟨rfl, rfl, not_not.mp hready, not_not.mp hcancelled⟩

theorem inFlightDeadline_setQueue (l : List QueuedEvent) :
    (q.setQueue c l).inFlightDeadline = q.inFlightDeadline := by
  unfold setQueue
  split_ifs <;> rfl

theorem inFlightDeadlines_drainReady (now : Nat) :
    (q.drainReady c now).1.inFlightDeadlines =
      q.inFlightDeadlines.set c (now + q.inFlightDeadline) := by
  simp only [drainReady, clearCancelled, takeOff, inFlightDeadlines_setQueue,
    inFlightDeadline_setQueue]

theorem free_of_not_isInFlight {q : EventQueue} (h : q.WellFormed) {c : Uuid}
    (hfree : q.isInFlight c = false) : q.inFlightDeadlines.get? c = none := by
  rw [isInFlight, h.tables c] at hfree
  exact Option.isSome_eq_false_iff.mp hfree |> Option.isNone_iff_eq_none.mp

theorem flushNext_batch {q : EventQueue} (h : q.WellFormed)
    (hflush : q.flushNext now pick = some (q', some batch)) :
    batch.channelId = pick ∧ batch.events ≠ [] ∧ q'.WellFormed ∧
      (q.expire now).inFlightDeadlines.get? pick = none ∧
      q'.inFlightDeadlines =
        (q.expire now).inFlightDeadlines.set pick (now + q.inFlightDeadline) := by
  have hexpired := h.expire now
  obtain ⟨hnone, -⟩ | ⟨hbatch, rfl, -, hpick⟩ | ⟨hbatch, rfl, -, hpick⟩ := flushNext_cases hflush
  · cases hnone
  · cases hbatch
    have hready := (List.mem_filter.mp hpick).2
    simp only [ready, Bool.and_eq_true, Bool.not_eq_true'] at hready
    obtain ⟨⟨hsome, hfree⟩, -⟩ := hready
    refine ⟨rfl, fun hnil => ?_, hexpired.drainReady pick now,
      free_of_not_isInFlight hexpired hfree, ?_⟩
    · have hlen := congrArg List.length hnil
      simp only [drainReady, List.length_insertionSort, List.length_map, List.length_take,
        List.length_nil] at hlen
      have hpos : 0 < ((q.expire now).queueOf pick).length := by
        rw [List.length_pos_iff]
        intro hempty
        rw [hempty] at hsome
        cases hsome
      have : 0 < maxBatchEvents := by decide
      omega
    · rw [inFlightDeadlines_drainReady, inFlightDeadline_expire]
  · cases hbatch
    obtain ⟨hmem, hfree⟩ := List.mem_filter.mp hpick
    obtain ⟨⟨c, l⟩, hentry, rfl⟩ := List.mem_map.mp hmem
    have hget := (Table.mem_toList _ _ _).mp hentry
    refine ⟨rfl, ?_, hexpired.redispatch c now,
      free_of_not_isInFlight hexpired (by simpa using hfree), ?_⟩
    · have hof : (q.expire now).cancelledOf c = l := by rw [cancelledOf, hget, Option.getD_some]
      simp only [redispatch, hof]
      exact hexpired.cancelled c l hget
    · rw [← inFlightDeadline_expire q now]
      rfl

theorem flushNext_none {q : EventQueue} (hflush : q.flushNext now pick = some (q', none)) :
    q' = q.expire now := by
  obtain ⟨-, hq, -⟩ | ⟨hbatch, -⟩ | ⟨hbatch, -⟩ := flushNext_cases hflush
  · exact hq
  · cases hbatch
  · cases hbatch

end EventQueue

/-! ## The batches that are out -/

def World.Current (w : World) (h : Handed) : Prop :=
  h.completed = false ∧ w.queue.inFlightDeadlines.get? h.batch.channelId = some h.deadline

/-- One batch of a channel has the channel's deadline. An older one that was not completed is past
its own. -/
structure World.Tracked (w : World) : Prop where
  single : w.handed.Pairwise fun h h' =>
    ¬ (w.Current h ∧ w.Current h' ∧ h.batch.channelId = h'.batch.channelId)
  stale : ∀ h ∈ w.handed, h.completed = false → w.Current h ∨
    (h.deadline ≤ w.clock ∧
      ∀ d, w.queue.inFlightDeadlines.get? h.batch.channelId = some d → h.deadline < d)

section Tracked

variable {w w' : World}

theorem tracked_of_fewer (h : w.Tracked)
    (hdeadlines : w'.queue.inFlightDeadlines = w.queue.inFlightDeadlines)
    (hhanded : w'.handed.Sublist w.handed) (hclock : w.clock ≤ w'.clock) : w'.Tracked where
  single := by
    refine (h.single.sublist hhanded).imp ?_
    intro x y hnot hboth
    unfold World.Current at hnot hboth
    rw [hdeadlines] at hboth
    exact hnot hboth
  stale x hx hopen := by
    unfold World.Current
    rw [hdeadlines]
    rcases h.stale x (hhanded.subset hx) hopen with hcurrent | ⟨hpast, hlater⟩
    · exact .inl hcurrent
    · exact .inr ⟨hpast.trans hclock, hlater⟩

theorem tracked_expired (h : w.Tracked)
    (hdeadlines : ∀ c, w'.queue.inFlightDeadlines.get? c =
      (w.queue.inFlightDeadlines.get? c).filter fun d => w.clock < d)
    (hhanded : w'.handed = w.handed) (hclock : w'.clock = w.clock) : w'.Tracked := by
  have hkept : ∀ c d, w'.queue.inFlightDeadlines.get? c = some d →
      w.queue.inFlightDeadlines.get? c = some d := by
    intro c d hget
    rw [hdeadlines] at hget
    exact (Option.filter_eq_some_iff.mp hget).1
  refine ⟨?_, fun x hx hopen => ?_⟩
  · rw [hhanded]
    refine h.single.imp ?_
    rintro x y hnot ⟨⟨hx, hgetx⟩, ⟨hy, hgety⟩, hsame⟩
    exact hnot ⟨⟨hx, hkept _ _ hgetx⟩, ⟨hy, hkept _ _ hgety⟩, hsame⟩
  · rw [hhanded] at hx
    rw [hclock]
    rcases h.stale x hx hopen with ⟨-, hget⟩ | ⟨hpast, hlater⟩
    · by_cases hd : w.clock < x.deadline
      · refine .inl ⟨hopen, ?_⟩
        rw [hdeadlines, hget, Option.filter_some, if_pos (by simpa using hd)]
      · refine .inr ⟨Nat.le_of_not_lt hd, fun d hd' => ?_⟩
        rw [hdeadlines, hget, Option.filter_some, if_neg (by simpa using hd)] at hd'
        cases hd'
    · exact .inr ⟨hpast, fun d hd => hlater d (hkept _ _ hd)⟩

theorem tracked_flushed (h : w.Tracked) {d : Nat} (hd : w.clock < d)
    (hfree : w.queue.inFlightDeadlines.get? batch.channelId = none)
    (hdeadlines : w'.queue.inFlightDeadlines = w.queue.inFlightDeadlines.set batch.channelId d)
    (hhanded : w'.handed = w.handed ++ [Handed.mk batch d false]) (hclock : w'.clock = w.clock) :
    w'.Tracked := by
  -- No older batch of the channel has the new deadline.
  have hold : ∀ x ∈ w.handed, x.batch.channelId = batch.channelId → ¬ w'.Current x := by
    rintro x hx hc ⟨hopen, hget⟩
    rw [hdeadlines, Table.get?_set, if_pos hc] at hget
    have hxd : d = x.deadline := Option.some.inj hget
    rcases h.stale x hx hopen with ⟨-, hcurrent⟩ | ⟨hpast, -⟩
    · rw [hc, hfree] at hcurrent
      cases hcurrent
    · omega
  have hother : ∀ x : Handed, x.batch.channelId ≠ batch.channelId →
      w'.queue.inFlightDeadlines.get? x.batch.channelId =
        w.queue.inFlightDeadlines.get? x.batch.channelId := by
    intro x hc
    rw [hdeadlines, Table.get?_set, if_neg hc]
  refine ⟨?_, fun x hx hopen => ?_⟩
  · rw [hhanded, List.pairwise_append]
    refine ⟨h.single.imp_of_mem ?_, List.pairwise_singleton _ _, ?_⟩
    · rintro x y hx hy hnot ⟨hcx, hcy, hsame⟩
      by_cases hc : x.batch.channelId = batch.channelId
      · exact hold x hx hc hcx
      · refine hnot ⟨⟨hcx.1, ?_⟩, ⟨hcy.1, ?_⟩, hsame⟩
        · rw [← hother x hc]
          exact hcx.2
        · rw [← hother y (hsame ▸ hc)]
          exact hcy.2
    · rintro x hx y hy ⟨hcx, -, hsame⟩
      rw [List.mem_singleton] at hy
      subst hy
      exact hold x hx hsame hcx
  · rw [hhanded, List.mem_append, List.mem_singleton] at hx
    rw [hclock]
    rcases hx with hx | rfl
    · by_cases hc : x.batch.channelId = batch.channelId
      · rcases h.stale x hx hopen with ⟨-, hget⟩ | ⟨hpast, -⟩
        · rw [hc, hfree] at hget
          cases hget
        · refine .inr ⟨hpast, fun d' hd' => ?_⟩
          rw [hdeadlines, Table.get?_set, if_pos hc] at hd'
          cases hd'
          omega
      · unfold World.Current
        rw [hother x hc]
        exact h.stale x hx hopen
    · refine .inl ⟨rfl, ?_⟩
      rw [hdeadlines, Table.get?_set, if_pos rfl]

theorem tracked_completed (h : w.Tracked) (c : Uuid)
    (hdeadlines : w'.queue.inFlightDeadlines = w.queue.inFlightDeadlines.remove c)
    (hhanded : w'.handed = w.handed.map (Handed.complete c)) (hclock : w'.clock = w.clock) :
    w'.Tracked := by
  have hother : ∀ c', c' ≠ c →
      w'.queue.inFlightDeadlines.get? c' = w.queue.inFlightDeadlines.get? c' := by
    intro c' hc
    rw [hdeadlines, Table.get?_remove, if_neg hc]
  -- A batch that is still open is of another channel, and it is as it was.
  have hopen : ∀ x : Handed, (x.complete c).completed = false →
      x.batch.channelId ≠ c ∧ x.complete c = x := by
    intro x hx
    unfold Handed.complete at hx ⊢
    by_cases hc : x.batch.channelId = c
    · rw [if_pos hc] at hx
      cases hx
    · exact ⟨hc, if_neg hc⟩
  have hback : ∀ x : Handed, w'.Current (x.complete c) → w.Current x ∧ x.complete c = x := by
    intro x hx
    obtain ⟨hc, hsame⟩ := hopen x hx.1
    rw [hsame] at hx
    refine ⟨⟨hx.1, ?_⟩, hsame⟩
    rw [← hother _ hc]
    exact hx.2
  refine ⟨?_, fun y hy hyopen => ?_⟩
  · rw [hhanded, List.pairwise_map]
    refine h.single.imp ?_
    rintro x y hnot ⟨hx, hy, hsame⟩
    rw [batch_complete, batch_complete] at hsame
    exact hnot ⟨(hback x hx).1, (hback y hy).1, hsame⟩
  · rw [hhanded] at hy
    obtain ⟨x, hx, rfl⟩ := List.mem_map.mp hy
    obtain ⟨hc, hsame⟩ := hopen x hyopen
    rw [hsame] at hyopen ⊢
    unfold World.Current
    rw [hother _ hc, hclock]
    exact h.stale x hx hyopen

theorem tracked_extended (h : w.Tracked) {c : Uuid} {current extended : Nat}
    (hcurrent : w.queue.inFlightDeadlines.get? c = some current) (hlater : current < extended)
    (hdeadlines : w'.queue.inFlightDeadlines = w.queue.inFlightDeadlines.set c extended)
    (hhanded : w'.handed = w.handed.map (Handed.extend c (some current) (some extended)))
    (hclock : w'.clock = w.clock) : w'.Tracked := by
  have hother : ∀ c', c' ≠ c →
      w'.queue.inFlightDeadlines.get? c' = w.queue.inFlightDeadlines.get? c' := by
    intro c' hc
    rw [hdeadlines, Table.get?_set, if_neg hc]
  have hnew : w'.queue.inFlightDeadlines.get? c = some extended := by
    rw [hdeadlines, Table.get?_set, if_pos rfl]
  have hkeep : ∀ x : Handed, x.batch.channelId ≠ c →
      x.extend c (some current) (some extended) = x ∧ (w'.Current x ↔ w.Current x) := by
    intro x hc
    unfold World.Current
    rw [hother _ hc]
    exact ⟨if_neg fun hboth => hc hboth.1, Iff.rfl⟩
  -- Of the channel, the batch that has the deadline gets the new one.
  have hmove : ∀ x : Handed, x.batch.channelId = c →
      (w.Current x ∧ w'.Current (x.extend c (some current) (some extended))) ∨
        (¬ w.Current x ∧ x.extend c (some current) (some extended) = x) := by
    intro x hc
    unfold World.Current Handed.extend
    rw [hc, hcurrent]
    split_ifs with hboth
    · refine .inl ⟨⟨hboth.2.2, hboth.2.1⟩, hboth.2.2, ?_⟩
      rw [hc]
      exact hnew
    · exact .inr ⟨fun hx => hboth ⟨rfl, hx.2, hx.1⟩, rfl⟩
  have hback : ∀ x ∈ w.handed, w'.Current (x.extend c (some current) (some extended)) →
      w.Current x := by
    intro x hx hnewx
    by_cases hc : x.batch.channelId = c
    · rcases hmove x hc with ⟨hold, -⟩ | ⟨hnot, hsame⟩
      · exact hold
      · rw [hsame] at hnewx
        have hd : extended = x.deadline := by
          have hget := hnewx.2
          rw [hc, hnew] at hget
          exact Option.some.inj hget
        rcases h.stale x hx hnewx.1 with hold | ⟨-, hpast⟩
        · exact hold
        · have := hpast current (hc ▸ hcurrent)
          omega
    · obtain ⟨hsame, hiff⟩ := hkeep x hc
      rw [hsame] at hnewx
      exact hiff.mp hnewx
  refine ⟨?_, fun y hy hyopen => ?_⟩
  · rw [hhanded, List.pairwise_map]
    refine h.single.imp_of_mem ?_
    rintro x y hx hy hnot ⟨hnewx, hnewy, hsame⟩
    rw [batch_extend, batch_extend] at hsame
    exact hnot ⟨hback x hx hnewx, hback y hy hnewy, hsame⟩
  · rw [hhanded] at hy
    obtain ⟨x, hx, rfl⟩ := List.mem_map.mp hy
    by_cases hc : x.batch.channelId = c
    · rcases hmove x hc with ⟨-, hnewx⟩ | ⟨hnot, hsame⟩
      · exact .inl hnewx
      · rw [hsame] at hyopen ⊢
        rcases h.stale x hx hyopen with hold | ⟨hpast, hbefore⟩
        · exact absurd hold hnot
        · refine .inr ⟨hclock ▸ hpast, fun d hd => ?_⟩
          rw [hc, hnew] at hd
          cases hd
          exact (hbefore current (hc ▸ hcurrent)).trans hlater
    · obtain ⟨hsame, hiff⟩ := hkeep x hc
      rw [hsame] at hyopen ⊢
      rw [hiff, hother _ hc, hclock]
      exact h.stale x hx hyopen

end Tracked

/-! ## What every step keeps -/

def World.Sourced (w : World) (batch : FlushBatch) : Prop :=
  batch.events ≠ [] ∧ ∀ x ∈ batch.items, x ∈ w.accepted

structure World.Kept (w : World) : Prop where
  balanced : w.Balanced
  wellFormed : w.queue.WellFormed
  tracked : w.Tracked
  filled : ∀ h ∈ w.handed, h.batch.events ≠ []
  sourced : ∀ batch ∈ w.flushed, w.Sourced batch

theorem kept_of_fewer {w w' : World} (h : w.Kept) (hbalanced : w'.Balanced)
    (hwellFormed : w'.queue.WellFormed)
    (hdeadlines : w'.queue.inFlightDeadlines = w.queue.inFlightDeadlines)
    (hhanded : w'.handed.Sublist w.handed) (hclock : w.clock ≤ w'.clock)
    (haccepted : w.accepted ⊆ w'.accepted) (hflushed : w'.flushed = w.flushed) : w'.Kept where
  balanced := hbalanced
  wellFormed := hwellFormed
  tracked := tracked_of_fewer h.tracked hdeadlines hhanded hclock
  filled x hx := h.filled x (hhanded.subset hx)
  sourced batch hbatch := by
    rw [hflushed] at hbatch
    obtain ⟨hfilled, hitems⟩ := h.sourced batch hbatch
    exact ⟨hfilled, fun x hx => haccepted (hitems x hx)⟩

theorem give_sublist (w : World) (i : Nat) : (w.give i).handed.Sublist w.handed :=
  List.eraseIdx_sublist _ _

theorem filled_batch? {w : World} (h : w.Kept) {i : Nat} (hbatch : w.batch? i = some batch) :
    batch.events ≠ [] := by
  obtain ⟨held, hget, rfl⟩ := Option.map_eq_some_iff.mp hbatch
  exact h.filled held (List.mem_of_getElem? hget)

theorem kept_init (mode : DedupMode) (maxTurnDurationSecs : Nat) :
    (World.init ((EventQueue.new mode).withInFlightDeadline maxTurnDurationSecs)).Kept where
  balanced := balanced_init mode maxTurnDurationSecs
  wellFormed := by
    refine ⟨fun c => Nat.zero_le _, fun c => rfl, fun c l h => ?_, ?_⟩
    · cases h
    · simp only [World.init, EventQueue.withInFlightDeadline, secs, inFlightDeadlineBufferSecs]
      omega
  tracked := ⟨List.Pairwise.nil, fun h hmem => by cases hmem⟩
  filled h hmem := by cases hmem
  sourced batch hmem := by cases hmem

theorem kept_afterExpiry {w : World} (h : w.Kept)
    (hbalanced : (w.afterExpiry (w.queue.expire w.clock)).Balanced) :
    (w.afterExpiry (w.queue.expire w.clock)).Kept where
  balanced := hbalanced
  wellFormed := h.wellFormed.expire w.clock
  tracked := tracked_expired h.tracked
    (fun c => EventQueue.inFlightDeadlines_expire w.queue c w.clock) rfl rfl
  filled := h.filled
  sourced := h.sourced

theorem kept_flushNext {w w' : World} (h : w.Kept) (hstep : step w (.flushNext pick) = some w') :
    w'.Kept := by
  have hbalanced := (step_balanced h.balanced hstep).1
  obtain ⟨q, hflush, rfl⟩ | ⟨q, batch, hflush, rfl⟩ := step_flushNext_cases hstep
  · cases EventQueue.flushNext_none hflush
    exact kept_afterExpiry h hbalanced
  · obtain ⟨hchannel, hfilled, hwell, hfree, hdeadlines⟩ :=
      EventQueue.flushNext_batch h.wellFormed hflush
    refine ⟨hbalanced, hwell, ?_, ?_, ?_⟩
    · have hexpired : (w.afterExpiry (w.queue.expire w.clock)).Tracked :=
        tracked_expired h.tracked
          (fun c => EventQueue.inFlightDeadlines_expire w.queue c w.clock) rfl rfl
      have hd : w.clock < w.clock + w.queue.inFlightDeadline := by
        have := h.wellFormed.deadline
        omega
      rw [← hchannel] at hfree hdeadlines
      exact tracked_flushed hexpired hd hfree hdeadlines rfl rfl
    · intro x hx
      rcases List.mem_append.mp hx with hx | hx
      · exact h.filled x hx
      · rw [List.mem_singleton] at hx
        subst hx
        exact hfilled
    · intro b hb
      rcases List.mem_append.mp hb with hb | hb
      · exact h.sourced b hb
      · rw [List.mem_singleton] at hb
        subst hb
        refine ⟨hfilled, fun x hx => ?_⟩
        -- The events of the batch came out of the queue, so they had been accepted.
        have hex := EventQueue.exchanges_flushNext hflush x
        have hcount := h.balanced x
        have hpos := List.count_pos_iff.mpr hx
        rw [Option.map_some, Option.getD_some, List.count_append, List.count_nil] at hex
        have haccepted : 0 < w.accepted.count x := by omega
        exact List.count_pos_iff.mp haccepted

theorem step_kept {w w' : World} {a : Action} (h : w.Kept) (hstep : step w a = some w') :
    w'.Kept := by
  have hbalanced := (step_balanced h.balanced hstep).1
  cases a with
  | tick nanos =>
    cases hstep
    exact kept_of_fewer h hbalanced h.wellFormed rfl (List.Sublist.refl _)
      (Nat.le_add_right _ _) (List.Subset.refl _) rfl
  | push e =>
    obtain ⟨-, rfl⟩ | ⟨-, rfl⟩ := step_push_cases hstep
    · exact h
    · exact kept_of_fewer h hbalanced (h.wellFormed.push e)
        (EventQueue.inFlightDeadlines_push w.queue e) (List.Sublist.refl _) (Nat.le_refl _)
        (List.subset_append_left _ _) rfl
  | flushNext pick => exact kept_flushNext h hstep
  | hasFlushableWork =>
    cases hstep
    exact kept_afterExpiry h hbalanced
  | markComplete c =>
    cases hstep
    obtain ⟨_, _, hcomplete⟩ := EventQueue.markComplete_cases w.queue c w.clock
    refine ⟨hbalanced, h.wellFormed.markComplete c w.clock, ?_, ?_, h.sourced⟩
    · refine tracked_completed h.tracked c ?_ rfl rfl
      simp only [hcomplete]
      rfl
    · intro y hy
      obtain ⟨x, hx, rfl⟩ := List.mem_map.mp hy
      rw [batch_complete]
      exact h.filled x hx
  | deliver i =>
    obtain ⟨batch, -, rfl⟩ := step_deliver_cases hstep
    exact kept_of_fewer h hbalanced h.wellFormed rfl (give_sublist w i) (Nat.le_refl _)
      (List.Subset.refl _) rfl
  | requeue i delay =>
    obtain ⟨batch, -, ⟨-, rfl⟩ | ⟨-, rfl⟩⟩ := step_requeue_cases hstep
    · exact kept_of_fewer h hbalanced (h.wellFormed.requeue batch w.clock delay)
        (EventQueue.inFlightDeadlines_requeue ..) (give_sublist w i) (Nat.le_refl _)
        (List.Subset.refl _) rfl
    · exact kept_of_fewer h hbalanced (h.wellFormed.requeue batch w.clock delay)
        (EventQueue.inFlightDeadlines_requeue ..) (give_sublist w i) (Nat.le_refl _)
        (List.Subset.refl _) rfl
  | requeuePreserveTimestamps i =>
    obtain ⟨batch, -, rfl⟩ := step_requeuePreserveTimestamps_cases hstep
    exact kept_of_fewer h hbalanced (h.wellFormed.pushFront batch.channelId batch.queued) rfl
      (give_sublist w i) (Nat.le_refl _) (List.Subset.refl _) rfl
  | requeueAsCancelled i reason =>
    obtain ⟨batch, hbatch, rfl⟩ := step_requeueAsCancelled_cases hstep
    exact kept_of_fewer h hbalanced (h.wellFormed.requeueAsCancelled (filled_batch? h hbatch) reason)
      rfl (give_sublist w i) (Nat.le_refl _) (List.Subset.refl _) rfl
  | drainChannel c =>
    cases hstep
    exact kept_of_fewer h hbalanced (h.wellFormed.drainChannel c) rfl (List.Sublist.refl _)
      (Nat.le_refl _) (List.Subset.refl _) rfl
  | extendInFlightDeadline c secs =>
    cases hstep
    refine ⟨hbalanced, h.wellFormed.extendInFlightDeadline c secs w.clock, ?_, ?_, h.sourced⟩
    · obtain hsame | ⟨current, extended, hcurrent, hlater, hextend⟩ :=
        EventQueue.extendInFlightDeadline_cases w.queue c secs w.clock
      · rw [hsame]
        have hid : w.handed.map (Handed.extend c (w.queue.inFlightDeadlines.get? c)
            (w.queue.inFlightDeadlines.get? c)) = w.handed := by
          refine List.map_id'' (fun x => ?_) w.handed
          unfold Handed.extend
          split_ifs with hboth
          · rw [hboth.2.1, Option.getD_some]
          · rfl
        rw [hid]
        exact h.tracked
      · rw [hextend]
        refine tracked_extended h.tracked hcurrent hlater rfl ?_ rfl
        rw [hcurrent, Table.get?_set, if_pos rfl]
    · intro y hy
      obtain ⟨x, hx, rfl⟩ := List.mem_map.mp hy
      rw [batch_extend]
      exact h.filled x hx
  | markNativeSteerPending c id =>
    cases hstep
    exact kept_of_fewer h hbalanced (h.wellFormed.markNativeSteerPending c id)
      (EventQueue.inFlightDeadlines_markNativeSteerPending ..) (List.Sublist.refl _)
      (Nat.le_refl _) (List.Subset.refl _) rfl
  | releaseNativeSteer c id =>
    cases hstep
    exact kept_of_fewer h hbalanced (h.wellFormed.releaseNativeSteer c id)
      (EventQueue.inFlightDeadlines_releaseNativeSteer ..) (List.Sublist.refl _)
      (Nat.le_refl _) (List.Subset.refl _) rfl
  | removeEvent c id =>
    cases hstep
    exact kept_of_fewer h hbalanced (h.wellFormed.removeEvent c id)
      (EventQueue.inFlightDeadlines_removeEvent ..) (List.Sublist.refl _)
      (Nat.le_refl _) (List.Subset.refl _) rfl
  | compactExpiredState =>
    cases hstep
    exact kept_of_fewer h hbalanced (h.wellFormed.of_same rfl rfl rfl rfl rfl) rfl
      (List.Sublist.refl _) (Nat.le_refl _) (List.Subset.refl _) rfl

/-! ## Batches in order -/

def InOrder (events : List BatchEvent) : Prop :=
  events.length ≤ maxBatchEvents ∧
    events.Pairwise fun a b => a.event.createdAt ≤ b.event.createdAt

instance (events : List BatchEvent) : Decidable (InOrder events) :=
  inferInstanceAs (Decidable (_ ∧ _))

/-- When no channel is ready, the cancelled events that are dispatched again are in order. -/
def RedispatchInOrder (w : World) : Action → Prop
  | .flushNext pick =>
    (w.queue.expire w.clock).readyChannels w.clock ≠ [] ∨
      (w.queue.expire w.clock).cancelledChannels = [] ∨
      InOrder ((w.queue.expire w.clock).cancelledOf pick)
  | _ => True

instance : ∀ w a, Decidable (RedispatchInOrder w a)
  | _, .flushNext _ => inferInstanceAs (Decidable (_ ∨ _))
  | _, .tick _ | _, .push _ | _, .hasFlushableWork | _, .markComplete _ | _, .deliver _
  | _, .requeue _ _ | _, .requeuePreserveTimestamps _ | _, .requeueAsCancelled _ _
  | _, .drainChannel _ | _, .extendInFlightDeadline _ _ | _, .markNativeSteerPending _ _
  | _, .releaseNativeSteer _ _ | _, .removeEvent _ _ | _, .compactExpiredState => isTrue trivial

theorem inOrder_drainReady (q : EventQueue) (c : Uuid) (now : Nat) :
    InOrder (q.drainReady c now).2.events := by
  refine ⟨?_, ?_⟩
  · simp only [EventQueue.drainReady, List.length_insertionSort, List.length_map]
    exact List.length_take_le _ _
  · have htotal : Std.Total fun a b : BatchEvent => a.event.createdAt ≤ b.event.createdAt :=
      ⟨fun a b => Nat.le_total _ _⟩
    have htrans : IsTrans BatchEvent fun a b => a.event.createdAt ≤ b.event.createdAt :=
      ⟨fun a b c => Nat.le_trans⟩
    exact List.pairwise_insertionSort _ _

theorem step_inOrder {w w' : World} {a : Action} (hstep : step w a = some w') :
    (∀ batch ∈ w'.flushed, InOrder batch.events) ↔
      (∀ batch ∈ w.flushed, InOrder batch.events) ∧ RedispatchInOrder w a := by
  have hsame : w'.flushed = w.flushed → RedispatchInOrder w a →
      ((∀ batch ∈ w'.flushed, InOrder batch.events) ↔
        (∀ batch ∈ w.flushed, InOrder batch.events) ∧ RedispatchInOrder w a) := by
    intro hflushed hcond
    rw [hflushed]
    exact ⟨fun h => ⟨h, hcond⟩, And.left⟩
  cases a with
  | flushNext pick =>
    obtain ⟨q, hflush, rfl⟩ | ⟨q, batch, hflush, rfl⟩ := step_flushNext_cases hstep
    · obtain ⟨-, -, hready, hcancelled⟩ | ⟨hbatch, -⟩ | ⟨hbatch, -⟩ :=
        EventQueue.flushNext_cases hflush
      · exact hsame rfl (.inr (.inl hcancelled))
      · cases hbatch
      · cases hbatch
    · have hlast : (∀ b ∈ w.flushed ++ [batch], InOrder b.events) ↔
          (∀ b ∈ w.flushed, InOrder b.events) ∧ InOrder batch.events := by
        simp [or_imp, forall_and]
      refine hlast.trans (and_congr_right fun _ => ?_)
      obtain ⟨hnone, -⟩ | ⟨hbatch, -, hready, -⟩ | ⟨hbatch, -, hready, hpick⟩ :=
        EventQueue.flushNext_cases hflush
      · cases hnone
      · cases hbatch
        exact ⟨fun _ => .inl hready, fun _ => inOrder_drainReady ..⟩
      · cases hbatch
        refine ⟨fun h => .inr (.inr h), ?_⟩
        rintro (hnot | hnil | horder)
        · exact absurd hready hnot
        · rw [hnil] at hpick
          cases hpick
        · exact horder
  | push e =>
    obtain ⟨-, rfl⟩ | ⟨-, rfl⟩ := step_push_cases hstep
    · exact hsame rfl trivial
    · exact hsame rfl trivial
  | deliver i =>
    obtain ⟨batch, -, rfl⟩ := step_deliver_cases hstep
    exact hsame rfl trivial
  | requeue i delay =>
    obtain ⟨batch, -, ⟨-, rfl⟩ | ⟨-, rfl⟩⟩ := step_requeue_cases hstep
    · exact hsame rfl trivial
    · exact hsame rfl trivial
  | requeuePreserveTimestamps i =>
    obtain ⟨batch, -, rfl⟩ := step_requeuePreserveTimestamps_cases hstep
    exact hsame rfl trivial
  | requeueAsCancelled i reason =>
    obtain ⟨batch, hbatch, rfl⟩ := step_requeueAsCancelled_cases hstep
    exact hsame rfl trivial
  | tick _ | hasFlushableWork | markComplete _ | drainChannel _ | extendInFlightDeadline _ _
  | markNativeSteerPending _ _ | releaseNativeSteer _ _ | removeEvent _ _
  | compactExpiredState =>
    cases hstep
    exact hsame rfl trivial

/-! ## Turns put back in order -/

open Machine

/-- What a caller can check: the turn that it puts back is in order after what is stored. -/
def PutBackInOrder (w : World) : Action → Prop
  | .requeueAsCancelled i _ => ∀ batch ∈ w.batch? i,
      InOrder (w.queue.cancelledOf batch.channelId ++ batch.cancelledEvents ++ batch.events)
  | _ => True

theorem cancelledOf_expire (q : EventQueue) (now : Nat) (c : Uuid) :
    (q.expire now).cancelledOf c = q.cancelledOf c := by
  unfold EventQueue.expire
  generalize q.expired now = cs
  induction cs generalizing q with
  | nil => rfl
  | cons c' cs ih =>
    rw [List.foldl_cons, ih]
    obtain ⟨-, hland⟩ | ⟨entries, -, hrecover⟩ := EventQueue.expireChannel_cases q c'
    · rw [hland]
      rfl
    · rw [hrecover]
      rfl

theorem step_cancelledOf {w w' : World} {a : Action} (hstep : step w a = some w') (c : Uuid) :
    w'.queue.cancelledOf c = w.queue.cancelledOf c ∨ w'.queue.cancelledOf c = [] ∨
      ∃ i reason, a = .requeueAsCancelled i reason ∧ ∃ batch ∈ w.batch? i,
        w'.queue.cancelledOf c =
          w.queue.cancelledOf batch.channelId ++ batch.cancelledEvents ++ batch.events := by
  cases a with
  | flushNext pick =>
    have hflushed : ∀ q batch, w.queue.flushNext w.clock pick = some (q, batch) →
        q.cancelledOf c = w.queue.cancelledOf c ∨ q.cancelledOf c = [] := by
      intro q batch hflush
      have hexpire := cancelledOf_expire w.queue w.clock c
      obtain ⟨-, rfl, -⟩ | ⟨-, rfl, -⟩ | ⟨-, rfl, -⟩ := EventQueue.flushNext_cases hflush
      · exact .inl hexpire
      · by_cases hc : c = pick <;> simp [EventQueue.drainReady, hc, hexpire]
      · by_cases hc : c = pick <;> simp [EventQueue.redispatch, hc, hexpire]
    obtain ⟨q, hflush, rfl⟩ | ⟨q, batch, hflush, rfl⟩ := step_flushNext_cases hstep
    · exact (hflushed q _ hflush).imp_right .inl
    · exact (hflushed q _ hflush).imp_right .inl
  | requeueAsCancelled i reason =>
    obtain ⟨batch, hbatch, rfl⟩ := step_requeueAsCancelled_cases hstep
    by_cases hc : c = batch.channelId
    · refine .inr (.inr ⟨i, reason, rfl, batch, hbatch, ?_⟩)
      simp [EventQueue.requeueAsCancelled, EventQueue.cancelledOf, hc]
    · refine .inl ?_
      simp [EventQueue.requeueAsCancelled, EventQueue.cancelledOf, hc]
  | drainChannel c' =>
    cases hstep
    by_cases hc : c = c'
    · exact .inr (.inl (by simp [EventQueue.drainChannel, EventQueue.cancelledOf, World.leave, hc]))
    · exact .inl (by simp [EventQueue.drainChannel, EventQueue.cancelledOf, World.leave, hc])
  | push e =>
    obtain ⟨-, rfl⟩ | ⟨-, rfl⟩ := step_push_cases hstep
    · exact .inl rfl
    · simp only [World.leave, EventQueue.push]
      split
      · exact .inl rfl
      · exact .inl rfl
  | deliver i =>
    obtain ⟨batch, -, rfl⟩ := step_deliver_cases hstep
    exact .inl rfl
  | requeue i delay =>
    obtain ⟨batch, -, ⟨hdead, rfl⟩ | ⟨hretry, rfl⟩⟩ := step_requeue_cases hstep
    · exact .inl (by simp only [World.leave, EventQueue.requeue, if_pos hdead]; rfl)
    · exact .inl (by simp only [World.leave, EventQueue.requeue, if_neg hretry]; rfl)
  | requeuePreserveTimestamps i =>
    obtain ⟨batch, -, rfl⟩ := step_requeuePreserveTimestamps_cases hstep
    exact .inl rfl
  | hasFlushableWork =>
    cases hstep
    exact .inl (cancelledOf_expire ..)
  | markComplete c' =>
    cases hstep
    obtain ⟨retryAfter, retryCounts, hcomplete⟩ :=
      EventQueue.markComplete_cases w.queue c' w.clock
    exact .inl (by rw [hcomplete]; rfl)
  | extendInFlightDeadline c' secs =>
    cases hstep
    obtain hsame | ⟨current, extended, -, -, hextend⟩ :=
      EventQueue.extendInFlightDeadline_cases w.queue c' secs w.clock
    · exact .inl (by rw [hsame])
    · exact .inl (by rw [hextend]; rfl)
  | markNativeSteerPending c' id =>
    cases hstep
    simp only [EventQueue.markNativeSteerPending]
    split <;> simp
  | releaseNativeSteer c' id =>
    cases hstep
    simp only [World.leave, EventQueue.releaseNativeSteer]
    split <;> simp
  | removeEvent c' id =>
    cases hstep
    exact .inl (EventQueue.of_removeEvent w.queue c' c id).2.2
  | tick _ | compactExpiredState =>
    cases hstep
    exact .inl rfl

/-- When every cancelled turn is put back in order, what is dispatched again is in order. -/
theorem meets_redispatchInOrder {mode : DedupMode} {maxTurnDurationSecs : Nat}
    {actions : List Action} (h : Meets step PutBackInOrder
      (.init ((EventQueue.new mode).withInFlightDeadline maxTurnDurationSecs)) actions) :
    Meets step RedispatchInOrder
      (.init ((EventQueue.new mode).withInFlightDeadline maxTurnDurationSecs)) actions := by
  refine meets_of_meets (fun w => ∀ c, InOrder (w.queue.cancelledOf c)) ?_ ?_ ?_ h
  · intro w a w' hstored hback hstep c
    obtain hsame | hnil | ⟨i, reason, rfl, batch, hbatch, hput⟩ := step_cancelledOf hstep c
    · rw [hsame]
      exact hstored c
    · rw [hnil]
      exact ⟨Nat.zero_le _, .nil⟩
    · rw [hput]
      exact hback batch hbatch
  · intro w a hstored hback
    cases a with
    | flushNext pick => exact .inr (.inr (by rw [cancelledOf_expire]; exact hstored pick))
    | _ => trivial
  · intro c
    exact ⟨Nat.zero_le _, .nil⟩

/-! ## Runs -/

/-- A caller holds the batch, its channel was not completed since, and its deadline lies ahead. -/
def World.IsOut (w : World) (h : Handed) : Prop := h.completed = false ∧ w.clock < h.deadline

structure World.Disciplined (w : World) : Prop where
  oneOut : w.handed.Pairwise fun h h' =>
    ¬ (w.IsOut h ∧ w.IsOut h' ∧ h.batch.channelId = h'.batch.channelId)
  tables : ∀ c, (w.queue.inFlightChannels.get? c).isSome = (w.queue.inFlightDeadlines.get? c).isSome
  capped : ∀ c, (w.queue.queueOf c).length ≤ maxPendingPerChannel
  sourced : ∀ batch ∈ w.flushed, w.Sourced batch
  inOrder : ∀ batch ∈ w.flushed, InOrder batch.events

theorem disciplined_iff {w : World} (h : w.Kept) :
    w.Disciplined ↔ ∀ batch ∈ w.flushed, InOrder batch.events := by
  refine ⟨World.Disciplined.inOrder, fun hinOrder => ?_⟩
  refine ⟨?_, h.wellFormed.tables, h.wellFormed.capped, h.sourced, hinOrder⟩
  have hcurrent : ∀ x ∈ w.handed, w.IsOut x → w.Current x := by
    rintro x hx ⟨hopen, hahead⟩
    rcases h.tracked.stale x hx hopen with hcurrent | ⟨hpast, -⟩
    · exact hcurrent
    · omega
  refine h.tracked.single.imp_of_mem ?_
  rintro x y hx hy hnot ⟨hxout, hyout, hsame⟩
  exact hnot ⟨hcurrent x hx hxout, hcurrent y hy hyout, hsame⟩

/-- A run is disciplined just when the cancelled events it dispatches again are in order. -/
theorem queue_disciplined_iff {mode : DedupMode} {maxTurnDurationSecs : Nat}
    {actions : List Action} {w : World}
    (hrun : run step (.init ((EventQueue.new mode).withInFlightDeadline maxTurnDurationSecs))
      actions = some w) :
    w.Disciplined ↔ Meets step RedispatchInOrder
      (.init ((EventQueue.new mode).withInFlightDeadline maxTurnDurationSecs)) actions := by
  have hinit := kept_init mode maxTurnDurationSecs
  have hkept : w.Kept := run_invariant World.Kept (fun _ _ _ => step_kept) hinit hrun
  have horder := run_iff_meets (fun _ => True) (fun _ _ _ _ hstep => ⟨trivial, step_inOrder hstep⟩)
    trivial hrun
  rw [disciplined_iff hkept, horder, and_iff_right]
  intro batch hbatch
  cases hbatch

/-- A cancelled turn is dispatched again alone, with its two events from the older to the newer. -/
theorem queue_disciplined_redispatch : ∃ w, run step
    (.init ((EventQueue.new .queue).withInFlightDeadline 7200))
    [.push (demoEvent "e2" 2), .push (demoEvent "e1" 1), .flushNext 1, .requeueAsCancelled 0 .steer,
      .markComplete 1, .flushNext 1] = some w ∧ w.flushed.length = 2 ∧ w.Disciplined := by
  have hdemo : ((run step (.init ((EventQueue.new .queue).withInFlightDeadline 7200))
    [.push (demoEvent "e2" 2), .push (demoEvent "e1" 1), .flushNext 1, .requeueAsCancelled 0 .steer,
      .markComplete 1, .flushNext 1]).any fun w => w.flushed.length == 2) = true := by
    decide +kernel
  obtain ⟨w, hrun, h⟩ := (Option.any_eq_true _ _).mp hdemo
  exact ⟨w, hrun, eq_of_beq h, (queue_disciplined_iff hrun).mpr (by decide +kernel)⟩

/-- Two turns are cancelled one after the other. The batch of both has the newer event first. -/
theorem redispatch_out_of_order :
    ¬ ∀ (mode : DedupMode) (maxTurnDurationSecs : Nat) (actions : List Action) (w : World),
      run step (.init ((EventQueue.new mode).withInFlightDeadline maxTurnDurationSecs)) actions =
        some w → w.Disciplined := by
  have hdemo : ((run step (.init ((EventQueue.new .queue).withInFlightDeadline 7200))
    [.push (demoEvent "e2" 200), .flushNext 1, .requeueAsCancelled 0 .steer, .markComplete 1,
      .push (demoEvent "e1" 100), .flushNext 1, .requeueAsCancelled 0 .steer, .markComplete 1,
      .flushNext 1]).any fun w => w.flushed.any fun batch => !decide (InOrder batch.events)) =
        true := by
    decide +kernel
  obtain ⟨w, hrun, h⟩ := (Option.any_eq_true _ _).mp hdemo
  obtain ⟨batch, hbatch, hnot⟩ := List.any_eq_true.mp h
  intro hall
  have horder := (hall _ _ _ w hrun).inOrder batch hbatch
  simp [horder] at hnot

end Vingilot.Acp
