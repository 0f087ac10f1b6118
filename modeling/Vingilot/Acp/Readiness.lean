import Mathlib.Data.Finset.Max
import Vingilot.Acp.Discipline

/-!
# What is ready to be flushed

`has_flushable_work` says whether a flush would give a batch, and `has_undispatched_work` whether
anything waits in a channel that is not in flight.
-/

namespace Vingilot.Acp

variable {q : EventQueue}

namespace EventQueue

def hasInFlight (q : EventQueue) : Bool := !q.inFlightChannels.toList.isEmpty

def hasUndispatchedWork (q : EventQueue) : Bool :=
  (q.queues.toList.any fun x => !x.2.isEmpty && !q.isInFlight x.1) ||
    (q.cancelledBatches.toList.any fun x => !q.isInFlight x.1) ||
    q.withheldNativeSteer.toList.any fun x => !x.2.isEmpty && !q.isInFlight x.1

/-! ## Expiry -/

theorem expired_expire (q : EventQueue) (now : Nat) : (q.expire now).expired now = [] := by
  refine List.map_eq_nil_iff.mpr (List.filter_eq_nil_iff.mpr ?_)
  rintro ⟨c, d⟩ hmem
  have hget := (Table.mem_toList _ _ _).mp hmem
  rw [inFlightDeadlines_expire] at hget
  obtain ⟨-, hahead⟩ := Option.filter_eq_some_iff.mp hget
  simpa using hahead

theorem expire_expire (q : EventQueue) (now : Nat) : (q.expire now).expire now = q.expire now := by
  rw [expire, expired_expire]
  rfl

theorem inFlightChannels_expireAll (q : EventQueue) (c : Uuid) (cs : List Uuid) :
    (cs.foldl expireChannel q).inFlightChannels.get? c =
      if c ∈ cs then none else q.inFlightChannels.get? c := by
  induction cs generalizing q with
  | nil => simp
  | cons c₁ cs ih =>
    have hone : (q.expireChannel c₁).inFlightChannels = q.inFlightChannels.remove c₁ := by
      obtain ⟨-, hexpire⟩ | ⟨entries, -, hexpire⟩ := expireChannel_cases q c₁
      · rw [hexpire]
        rfl
      · rw [hexpire]
        rfl
    rw [List.foldl_cons, ih, hone, Table.get?_remove]
    by_cases hc : c = c₁
    · simp [hc]
    · simp only [List.mem_cons, hc, false_or, if_false]

theorem isInFlight_expire (q : EventQueue) (now : Nat) (c : Uuid) :
    (q.expire now).isInFlight c =
      (q.isInFlight c && !(q.inFlightDeadlines.get? c).any (· ≤ now)) := by
  have hmem : c ∈ q.expired now ↔ (q.inFlightDeadlines.get? c).any (· ≤ now) = true := by
    simp [expired, Table.mem_toList, Option.any_eq_true]
  rw [isInFlight, expire, inFlightChannels_expireAll]
  simp only [hmem]
  split_ifs with hpassed
  · simp [hpassed]
  · simp [hpassed, isInFlight]

/-! ## Flushing -/

/-- The condition that `has_flushable_work` checks on the entries of its maps. -/
def anyFlushable (q : EventQueue) (now : Nat) : Bool :=
  (q.queues.toList.any fun x => !x.2.isEmpty && !q.isInFlight x.1 &&
    (q.retryAfter.get? x.1).all (· ≤ now)) ||
  q.cancelledBatches.toList.any fun x => !q.isInFlight x.1

theorem queueOf_of_mem {x : Uuid × List QueuedEvent} (h : x ∈ q.queues.toList) :
    q.queueOf x.1 = x.2 := by
  rw [queueOf, (Table.mem_toList _ _ _).mp h, Option.getD_some]

theorem readyChannels_ne_nil (q : EventQueue) (now : Nat) :
    q.readyChannels now ≠ [] ↔ (q.queues.toList.any fun x => !x.2.isEmpty && !q.isInFlight x.1 &&
      (q.retryAfter.get? x.1).all (· ≤ now)) = true := by
  rw [List.any_eq_true]
  constructor
  · intro hne
    obtain ⟨c, hc⟩ := List.exists_mem_of_ne_nil _ hne
    obtain ⟨hmem, hready⟩ := List.mem_filter.mp hc
    obtain ⟨x, hx, rfl⟩ := List.mem_map.mp hmem
    rw [ready, queueOf_of_mem hx] at hready
    exact ⟨x, hx, hready⟩
  · rintro ⟨x, hx, hready⟩
    refine List.ne_nil_of_mem (List.mem_filter.mpr ⟨List.mem_map_of_mem hx, ?_⟩)
    rw [ready, queueOf_of_mem hx]
    exact hready

theorem cancelledChannels_ne_nil (q : EventQueue) :
    q.cancelledChannels ≠ [] ↔
      (q.cancelledBatches.toList.any fun x => !q.isInFlight x.1) = true := by
  rw [cancelledChannels, ne_eq, List.filter_eq_nil_iff]
  simp

theorem hasFlushableWork_eq (q : EventQueue) (now : Nat) :
    q.hasFlushableWork now = (q.expire now, (q.expire now).anyFlushable now) := by
  rw [hasFlushableWork, Prod.mk.injEq]
  refine ⟨rfl, ?_⟩
  rw [Bool.eq_iff_iff, anyFlushable, Bool.or_eq_true, Bool.or_eq_true, ← readyChannels_ne_nil,
    ← cancelledChannels_ne_nil, decide_eq_true_eq, decide_eq_true_eq]

theorem exists_oldest (q : EventQueue) {cs : List Uuid} (h : cs ≠ []) :
    ∃ pick ∈ cs, cs.all (fun c => q.headReceivedAt pick ≤ q.headReceivedAt c) = true := by
  obtain ⟨pick, hpick, hleast⟩ :=
    Finset.exists_min_image cs.toFinset q.headReceivedAt (List.toFinset_nonempty_iff cs |>.mpr h)
  exact ⟨pick, by simpa using hpick, by simpa using hleast⟩

theorem exists_flushNext (q : EventQueue) (now : Nat) : ∃ pick, (q.flushNext now pick).isSome := by
  unfold flushNext
  simp only
  by_cases hready : (q.expire now).readyChannels now = []
  · by_cases hcancelled : (q.expire now).cancelledChannels = []
    · exact ⟨0, by simp [hready, hcancelled]⟩
    · obtain ⟨pick, hpick⟩ := List.exists_mem_of_ne_nil _ hcancelled
      exact ⟨pick, by simp [hready, hcancelled, hpick]⟩
  · obtain ⟨pick, hpick, holdest⟩ := (q.expire now).exists_oldest hready
    exact ⟨pick, by rw [if_pos hready, if_pos ⟨hpick, holdest⟩]; rfl⟩

theorem flushNext_isSome {q' : EventQueue} {now : Nat} {pick : Uuid} {batch : Option FlushBatch}
    (h : q.flushNext now pick = some (q', batch)) : batch.isSome = (q.hasFlushableWork now).2 := by
  obtain ⟨rfl, -, hready, hcancelled⟩ | ⟨rfl, -, hready, -⟩ | ⟨rfl, -, -, hpick⟩ := flushNext_cases h
  · simp [hasFlushableWork, hready, hcancelled]
  · simp [hasFlushableWork, hready]
  · simp [hasFlushableWork, List.ne_nil_of_mem hpick]

theorem isInFlight_takeOff (q : EventQueue) (c c' : Uuid) (now : Nat) :
    (q.takeOff c now).isInFlight c' = (q.isInFlight c' || c = c') := by
  rw [isInFlight, takeOff, Table.get?_set]
  by_cases hc : c' = c
  · simp [hc]
  · simp [hc, Ne.symm hc, isInFlight]

theorem isInFlight_setQueue (q : EventQueue) (c c' : Uuid) (l : List QueuedEvent) :
    (q.setQueue c l).isInFlight c' = q.isInFlight c' := by
  unfold setQueue
  split_ifs
  · rfl
  · rfl

theorem flushNext_isInFlight {q' : EventQueue} {now : Nat} {pick : Uuid} {batch : Option FlushBatch}
    (h : q.flushNext now pick = some (q', batch)) (c : Uuid) :
    q'.isInFlight c = ((q.expire now).isInFlight c || batch.any (·.channelId = c)) := by
  obtain ⟨rfl, rfl, -⟩ | ⟨rfl, rfl, -⟩ | ⟨rfl, rfl, -⟩ := flushNext_cases h
  · simp
  · have hcleared : ((q.expire now).drainReady pick now).1.isInFlight c =
        (((q.expire now).setQueue pick
          (((q.expire now).queueOf pick).drop maxBatchEvents)).takeOff pick now).isInFlight c := rfl
    rw [hcleared, isInFlight_takeOff, isInFlight_setQueue]
    rfl
  · exact isInFlight_takeOff ((q.expire now).clearCancelled pick) pick c now

/-! ## Agreement -/

theorem isInFlight_of_idle (hidle : q.hasInFlight = false) (c : Uuid) : q.isInFlight c = false := by
  cases hget : q.inFlightChannels.get? c with
  | none => rw [isInFlight, hget]; rfl
  | some u =>
    have hmem := (Table.mem_toList q.inFlightChannels c u).mpr hget
    rw [hasInFlight, Bool.not_eq_false', List.isEmpty_iff] at hidle
    rw [hidle] at hmem
    cases hmem

structure FlushAgrees (q : EventQueue) (now : Nat) : Prop where
  checked : (q.hasFlushableWork now).2 = (q.hasFlushableWork now).1.anyFlushable now
  flushes : ∃ pick, (q.flushNext now pick).isSome
  agrees : ∀ pick q' batch, q.flushNext now pick = some (q', batch) →
    batch.isSome = (q.hasFlushableWork now).2
  expires : ∀ c, (q.hasFlushableWork now).1.isInFlight c =
    (q.isInFlight c && !(q.inFlightDeadlines.get? c).any (· ≤ now))
  sameExpiry : ∀ pick q' batch, q.flushNext now pick = some (q', batch) → ∀ c,
    q'.isInFlight c = ((q.hasFlushableWork now).1.isInFlight c || batch.any (·.channelId = c))
  unchanged : ∀ pick, (q.hasFlushableWork now).1.flushNext now pick = q.flushNext now pick
  settled : q.hasInFlight = false → q.hasUndispatchedWork = false → ∀ c,
    q.queueOf c = [] ∧ q.cancelledOf c = [] ∧ q.withheldOf c = []

/-- A flush gives a batch just when the check says so, whatever the state of the queue, and when
nothing is in flight and nothing is undispatched, the queue holds no event. -/
theorem flush_agrees (q : EventQueue) (now : Nat) : FlushAgrees q now where
  checked := by rw [hasFlushableWork_eq]
  flushes := exists_flushNext q now
  agrees _ _ _ h := flushNext_isSome h
  expires c := isInFlight_expire q now c
  sameExpiry _ _ _ h c := flushNext_isInFlight h c
  unchanged pick := by
    have hsame : (q.hasFlushableWork now).1 = q.expire now := rfl
    rw [hsame, flushNext, flushNext, expire_expire]
  settled hidle hnone c := by
    have hfree := isInFlight_of_idle hidle
    simp only [hasUndispatchedWork, hfree, Bool.not_false, Bool.and_true, Bool.or_eq_false_iff,
      List.any_eq_false, Prod.forall, Table.mem_toList] at hnone
    obtain ⟨⟨hqueues, hcancelled⟩, hwithheld⟩ := hnone
    refine ⟨?_, ?_, ?_⟩
    · unfold queueOf
      cases hget : q.queues.get? c with
      | none => rfl
      | some l => simpa using hqueues c l hget
    · unfold cancelledOf
      cases hget : q.cancelledBatches.get? c with
      | none => rfl
      | some l => exact absurd trivial (hcancelled c l hget)
    · unfold withheldOf
      cases hget : q.withheldNativeSteer.get? c with
      | none => rfl
      | some l => simpa using hwithheld c l hget

end EventQueue

end Vingilot.Acp
