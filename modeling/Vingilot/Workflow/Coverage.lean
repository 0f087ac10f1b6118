import Mathlib.Data.List.Chain
import Mathlib.Algebra.Order.Group.Int
import Vingilot.Workflow.Schedule

/-! # Which cron instants the scheduler's ticks reach

A tick at `now` looks at the 60 seconds that end at `now`. The next tick comes a minute and
a bit later, so the bit at the start of the gap is seen by neither.
-/

namespace Vingilot.Workflow

def MinuteGranular (sched : Schedule) : Prop := ∀ t, sched.instant t → nanos 60 ∣ t

def TickGaps (ticks : List Int) : Prop :=
  ticks.IsChain fun a b => a + nanos 60 ≤ b ∧ b ≤ a + nanos 61

def NoInstantBetween (sched : Schedule) (ticks : List Int) : Prop :=
  ticks.IsChain fun a b => ∀ t, sched.instant t → ¬ (a < t ∧ t ≤ b - nanos 60)

variable {now t : Int}

theorem firstIn_eq_some {sched : Schedule} {w : Int} : sched.firstIn now w = some t ↔
      sched.instant t ∧ now - nanos w < t ∧ t ≤ now ∧
        ∀ v, sched.instant v → now - nanos w < v → t ≤ v := by
  unfold Schedule.firstIn
  rw [Option.filter_eq_some_iff]
  constructor
  · rintro ⟨hafter, hle⟩
    obtain ⟨hinst, hlt, hleast⟩ := sched.after_some _ _ hafter
    exact ⟨hinst, hlt, by simpa using hle, hleast⟩
  · rintro ⟨hinst, hlt, hle, hleast⟩
    refine ⟨?_, by simpa using hle⟩
    cases hafter : sched.after (now - nanos w) with
    | none => exact absurd hlt (sched.after_none _ hafter t hinst)
    | some u =>
      obtain ⟨hinst', hlt', hleast'⟩ := sched.after_some _ _ hafter
      have hge := hleast u hinst' hlt'
      have hle' := hleast' t hinst hlt
      rw [Option.some.injEq]
      omega

theorem eq_of_same_minute_window {u : Int} (ht : nanos 60 ∣ t) (hu : nanos 60 ∣ u)
    (htw : now - nanos 60 < t ∧ t ≤ now) (huw : now - nanos 60 < u ∧ u ≤ now) : t = u := by
  obtain ⟨a, rfl⟩ := ht
  obtain ⟨b, rfl⟩ := hu
  simp only [nanos] at *
  omega

theorem firstIn_of_mem_window {sched : Schedule} (hminute : MinuteGranular sched)
    (ht : sched.instant t) (hlt : now - nanos 60 < t) (hle : t ≤ now) :
    sched.firstIn now 60 = some t := by
  refine firstIn_eq_some.mpr ⟨ht, hlt, hle, ?_⟩
  intro v hv hvlt
  by_contra hlater
  have heq := eq_of_same_minute_window (hminute t ht) (hminute v hv) ⟨hlt, hle⟩ ⟨hvlt, by omega⟩
  omega

theorem sorted_of_gaps {ticks : List Int} (h : TickGaps ticks) : ticks.Pairwise (· < ·) := by
  rw [← List.isChain_iff_pairwise]
  refine List.IsChain.imp ?_ h
  intro a b hab
  simp only [nanos] at hab
  omega

theorem exists_neighbours {R : Int → Int → Prop} (first : Int) (rest : List Int)
    (h : (first :: rest).IsChain R) (t last : Int) (hlast : (first :: rest).getLast? = some last)
    (hlt : first < t) (hle : t ≤ last) :
    ∃ a b, R a b ∧ a < t ∧ t ≤ b ∧ b ∈ rest := by
  induction rest generalizing first with
  | nil =>
    rw [List.getLast?_singleton, Option.some.injEq] at hlast
    omega
  | cons next rest ih =>
    rw [List.isChain_cons_cons] at h
    by_cases hnext : t ≤ next
    · exact ⟨first, next, h.1, hlt, hnext, List.mem_cons_self⟩
    · rw [List.getLast?_cons_cons] at hlast
      obtain ⟨a, b, hab, hat, htb, hmem⟩ := ih next h.2 hlast (by omega)
      exact ⟨a, b, hab, hat, htb, List.mem_cons_of_mem _ hmem⟩

theorem neighbour_le {ticks : List Int} (hsorted : ticks.Pairwise (· < ·)) {i : Nat}
    (hi : i + 1 < ticks.length) (hmem : now ∈ ticks) (hlt : ticks[i] < now) :
    ticks[i + 1] ≤ now := by
  obtain ⟨j, hj, rfl⟩ := List.getElem_of_mem hmem
  rw [List.pairwise_iff_getElem] at hsorted
  rcases Nat.lt_trichotomy j (i + 1) with hji | rfl | hji
  · rcases Nat.lt_or_ge j i with hji' | hij
    · have hback := hsorted j i hj (by omega) hji'
      omega
    · obtain rfl : j = i := by omega
      omega
  · exact Int.le_refl _
  · exact Int.le_of_lt (hsorted (i + 1) j hi hj hji)

/-- Every instant from the first tick to the last is fired at some tick exactly when none falls
between a tick and the next tick's window. -/
theorem every_instant_fired_iff (cron : CronParser) (expr : String) (sched : Schedule)
    (hparse : cron.parse (normalizeCron expr) = some sched) (hminute : MinuteGranular sched)
    (first : Int) (rest : List Int) (hgaps : TickGaps (first :: rest)) :
    (∀ t last, (first :: rest).getLast? = some last → sched.instant t → first < t → t ≤ last →
        ∃ now ∈ first :: rest, cronFireInstant cron expr now 60 = some t) ↔
      NoInstantBetween sched (first :: rest) := by
  have hsorted := sorted_of_gaps hgaps
  simp only [cronFireInstant, hparse]
  constructor
  · intro hall
    rw [NoInstantBetween, List.isChain_iff_getElem]
    rintro i hi t ht ⟨hlt, hle⟩
    have hfirst : first ≤ (first :: rest)[i] := by
      rcases Nat.eq_zero_or_pos i with rfl | hpos
      · exact Int.le_refl _
      · exact Int.le_of_lt (List.pairwise_iff_getElem.mp hsorted 0 i (by simp) (by omega) hpos)
    have hend : (first :: rest)[i + 1] ≤ (first :: rest).getLast (by simp) := by
      rw [List.getLast_eq_getElem]
      rcases Nat.eq_or_lt_of_le (Nat.le_sub_one_of_lt hi) with heq | hlt'
      · simp only [heq]
        exact Int.le_refl _
      · exact Int.le_of_lt (List.pairwise_iff_getElem.mp hsorted _ _ hi (by omega) hlt')
    simp only [nanos] at hle
    obtain ⟨now, hnow, hfire⟩ := hall t _ (List.getLast?_eq_some_getLast (by simp)) ht (by omega)
      (by omega)
    -- The tick that fires `t` is after the first neighbour and before the second.
    obtain ⟨-, hwin, htn, -⟩ := firstIn_eq_some.mp hfire
    have hge := neighbour_le hsorted hi hnow (by omega)
    simp only [nanos] at hwin
    omega
  · intro hnone t last hlast ht hlt hle
    obtain ⟨a, b, hab, hat, htb, hmem⟩ := exists_neighbours first rest hnone t last hlast hlt hle
    refine ⟨b, List.mem_cons_of_mem _ hmem, firstIn_of_mem_window hminute ht ?_ htb⟩
    by_contra hgap
    exact hab t ht ⟨hat, by omega⟩

/-! ## Every minute -/

def everyMinute : Schedule where
  instant t := nanos 60 ∣ t
  after t := some ((t / nanos 60 + 1) * nanos 60)
  after_some t u h := by
    cases h
    refine ⟨Int.dvd_mul_left .., by simp only [nanos]; omega, ?_⟩
    rintro _ ⟨v, rfl⟩ hlt
    simp only [nanos] at *
    omega
  after_none t h := by cases h

/-- Knows one expression, in the form `normalize_cron` gives it. -/
def everyMinuteCron : CronParser where
  parse text := if text = "0 * * * * * *" then some everyMinute else none

theorem everyMinute_minuteGranular : MinuteGranular everyMinute := fun _ h => h

theorem every_instant_fired_iff_everyMinute :
    cronFireInstant everyMinuteCron "* * * * *" (nanos 43260) 60 = some (nanos 43260) ∧
      NoInstantBetween everyMinute [nanos 43200, nanos 43260] := by
  have hiff := every_instant_fired_iff everyMinuteCron "* * * * *" everyMinute (by rfl)
    everyMinute_minuteGranular (nanos 43200) [nanos 43260]
    (by simp [TickGaps, List.isChain_cons_cons, nanos])
  refine ⟨by decide, hiff.mp ?_⟩
  rintro t last hlast ⟨v, rfl⟩ hlt hle
  obtain rfl : nanos 43260 = last := by simpa using hlast
  obtain rfl : v = 721 := by simp only [nanos] at hlt hle; omega
  exact ⟨nanos 43260, by simp, by decide⟩

/-- Half a second before noon, and sixty and a half seconds later. Noon is in neither window. -/
theorem noon_is_missed :
    TickGaps [43199500000000, nanos 43260] ∧ MinuteGranular everyMinute ∧
      everyMinuteCron.parse (normalizeCron "* * * * *") = some everyMinute ∧
      everyMinute.instant (nanos 43200) ∧ 43199500000000 < nanos 43200 ∧
      nanos 43200 ≤ nanos 43260 ∧
      ¬ ∃ now ∈ [43199500000000, nanos 43260],
        cronFireInstant everyMinuteCron "* * * * *" now 60 = some (nanos 43200) := by
  refine ⟨?_, everyMinute_minuteGranular, by rfl, ⟨720, by decide⟩, by decide, by decide, ?_⟩
  · simp [TickGaps, List.isChain_cons_cons, nanos]
  · decide

end Vingilot.Workflow
