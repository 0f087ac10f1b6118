import Vingilot.Workflow.Coverage
import Vingilot.Workflow.Scheduler

/-! # Each scheduled instant fires at most once

The claim row is what keeps two pods apart. It stays for good, whatever becomes of the pod
that made it.
-/

namespace Vingilot.Workflow

open Machine

/-! ## Claims -/

def ClaimsKeep (claims claims' : Claims) : Prop :=
  ∀ key row, claims.get? key = some row →
    ∃ row', claims'.get? key = some row' ∧ row'.winner = row.winner

theorem claimsKeep_refl (claims : Claims) : ClaimsKeep claims claims :=
  fun _ row h => ⟨row, h, rfl⟩

theorem claimsKeep_claim (claims : Claims) (pod : PodId) (key : FireKey) :
    ClaimsKeep claims (claimScheduledWorkflowFire claims pod key).1 := by
  intro key' row h
  unfold claimScheduledWorkflowFire
  cases hget : claims.get? key with
  | some _ => exact ⟨row, h, rfl⟩
  | none =>
    refine ⟨row, ?_, rfl⟩
    rw [Table.get?_set, if_neg, h]
    rintro rfl
    rw [hget] at h
    cases h

theorem claimsKeep_attach (claims : Claims) (key : FireKey) (runId : Uuid) :
    ClaimsKeep claims (attachScheduledWorkflowRun claims key runId) := by
  intro key' row h
  unfold attachScheduledWorkflowRun
  rw [Table.get?_alter]
  split_ifs with hkey
  · subst hkey
    rw [h]
    refine ⟨_, rfl, ?_⟩
    dsimp only
    split_ifs <;> rfl
  · exact ⟨row, h, rfl⟩

theorem claim_won (claims : Claims) (pod : PodId) (key : FireKey) :
    (claimScheduledWorkflowFire claims pod key).2 = true ↔ claims.get? key = none := by
  unfold claimScheduledWorkflowFire
  cases claims.get? key with
  | none => simp
  | some row => simp

theorem get?_claim_of_won (claims : Claims) (pod : PodId) (key : FireKey)
    (h : claims.get? key = none) :
    (claimScheduledWorkflowFire claims pod key).1.get? key = some ⟨pod, none⟩ := by
  unfold claimScheduledWorkflowFire
  rw [h]
  simp

theorem get?_claim_of_ne (claims : Claims) (pod : PodId) (key key' : FireKey) (h : key' ≠ key) :
    (claimScheduledWorkflowFire claims pod key).1.get? key' = claims.get? key' := by
  unfold claimScheduledWorkflowFire
  cases claims.get? key with
  | none => simp [h]
  | some row => rfl

theorem claims_independent (claims : Claims) (pod pod' : PodId) (key key' : FireKey)
    (h : key.communityId ≠ key'.communityId) :
    (claimScheduledWorkflowFire (claimScheduledWorkflowFire claims pod key).1 pod' key').2 =
      (claimScheduledWorkflowFire claims pod' key').2 := by
  have hne : key' ≠ key := fun heq => h (by rw [heq])
  rw [Bool.eq_iff_iff, claim_won, claim_won, get?_claim_of_ne _ _ _ _ hne]

/-! ## Steps and runs -/

structure Inv (s : World) : Prop where
  won : ∀ r ∈ s.runs, ∃ row, s.claims.get? r.fire.key = some row ∧ row.winner = r.pod
  creating : ∀ pod pass fire, (s.pods pod).phase = .creating pass fire →
    (∃ row, s.claims.get? fire.key = some row ∧ row.winner = pod) ∧
      ∀ r ∈ s.runs, r.fire.key ≠ fire.key
  once : (s.runs.map fun r => r.fire.key).Nodup

theorem inv_init (clock : Int) : Inv (.init clock) where
  won r h := by cases h
  creating pod pass fire h := by cases h
  once := List.nodup_nil

theorem winner_of_keep {claims claims' : Claims} {key : FireKey} {pod : PodId}
    (hkeep : ClaimsKeep claims claims')
    (h : ∃ row, claims.get? key = some row ∧ row.winner = pod) :
    ∃ row, claims'.get? key = some row ∧ row.winner = pod := by
  obtain ⟨row, hget, hwin⟩ := h
  obtain ⟨row', hget', hwin'⟩ := hkeep key row hget
  exact ⟨row', hget', by rw [hwin', hwin]⟩

theorem inv_frame (s : World) (claims : Claims) (pod : PodId) (p : Pod) (h : Inv s)
    (hkeep : ClaimsKeep s.claims claims) (hphase : ∀ pass fire, p.phase ≠ .creating pass fire) :
    Inv ({ s with claims := claims }.setPod pod p) where
  won r hr := winner_of_keep hkeep (h.won r hr)
  creating pod' pass fire hcreating := by
    by_cases hpod : pod' = pod
    · subst hpod
      rw [setPod_self] at hcreating
      exact absurd hcreating (hphase pass fire)
    · rw [setPod_of_ne _ p hpod] at hcreating
      obtain ⟨hwin, hfirst⟩ := h.creating pod' pass fire hcreating
      exact ⟨winner_of_keep hkeep hwin, hfirst⟩
  once := h.once

theorem inv_won (s : World) (pod : PodId) (lastFired : LastFired) (pass : Pass) (fire : Fire)
    (h : Inv s) (hfree : s.claims.get? fire.key = none) :
    Inv ({ s with claims := (claimScheduledWorkflowFire s.claims pod fire.key).1 }.setPod pod
      ⟨lastFired, .creating pass fire⟩) where
  won r hr := winner_of_keep (claimsKeep_claim _ _ _) (h.won r hr)
  creating pod' pass' fire' hcreating := by
    by_cases hpod : pod' = pod
    · subst hpod
      rw [setPod_self] at hcreating
      cases hcreating
      refine ⟨⟨_, get?_claim_of_won _ _ _ hfree, rfl⟩, ?_⟩
      intro r hr hkey
      obtain ⟨row, hget, -⟩ := h.won r hr
      rw [hkey, hfree] at hget
      cases hget
    · rw [setPod_of_ne _ _ hpod] at hcreating
      obtain ⟨hwin, hfirst⟩ := h.creating pod' pass' fire' hcreating
      exact ⟨winner_of_keep (claimsKeep_claim _ _ _) hwin, hfirst⟩
  once := h.once

theorem inv_created (s : World) (pod : PodId) (p : Pod) (runId : Uuid) (pass : Pass) (fire : Fire)
    (h : Inv s) (hphase : (s.pods pod).phase = .creating pass fire)
    (hdone : ∀ pass fire, p.phase ≠ .creating pass fire) :
    Inv ({ s with runs := s.runs ++ [(⟨runId, fire, pod, s.clock⟩ : Run)] }.setPod pod p) := by
  obtain ⟨hwin, hfirst⟩ := h.creating pod pass fire hphase
  refine ⟨?_, ?_, ?_⟩
  · intro r hr
    rcases List.mem_append.mp hr with hold | hnew
    · exact h.won r hold
    · cases List.mem_singleton.mp hnew
      exact hwin
  · intro pod' pass' fire' hcreating
    by_cases hpod : pod' = pod
    · subst hpod
      rw [setPod_self] at hcreating
      exact absurd hcreating (hdone pass' fire')
    · rw [setPod_of_ne _ p hpod] at hcreating
      obtain ⟨⟨row, hget, hwinner⟩, hfirst'⟩ := h.creating pod' pass' fire' hcreating
      refine ⟨⟨row, hget, hwinner⟩, ?_⟩
      intro r hr
      rcases List.mem_append.mp hr with hold | hnew
      · exact hfirst' r hold
      · -- Two pods cannot both have won the key.
        cases List.mem_singleton.mp hnew
        intro hkey
        obtain ⟨row', hget', hwinner'⟩ := hwin
        rw [hkey, hget] at hget'
        cases hget'
        exact hpod (by rw [← hwinner, hwinner'])
  · simp only [World.setPod]
    rw [List.map_append, List.map_singleton, List.nodup_append]
    refine ⟨h.once, List.nodup_singleton _, ?_⟩
    intro key hkey key' hkey' heq
    obtain ⟨r, hr, rfl⟩ := List.mem_map.mp hkey
    rw [List.mem_singleton] at hkey'
    exact hfirst r hr (by rw [heq, hkey'])

theorem inv_step (cron : CronParser) (s : World) (a : Action) (s' : World) (h : Inv s)
    (hstep : step cron s a = some s') : Inv s' := by
  have hkeep := claimsKeep_refl s.claims
  cases a with
  | advance nanos => cases hstep; exact ⟨h.won, h.creating, h.once⟩
  | wake pod now workflows =>
    simp only [step] at hstep
    split at hstep <;> cases hstep
    exact inv_frame s s.claims pod _ h hkeep nofun
  | decide pod anchorReadable authorized =>
    simp only [step] at hstep
    split at hstep <;> try cases hstep
    split at hstep
    · cases hstep
      exact inv_frame s s.claims pod _ h hkeep nofun
    · split_ifs at hstep <;> cases hstep
      · exact inv_frame s s.claims pod _ h hkeep nofun
      · exact inv_frame s s.claims pod _ h hkeep nofun
  | claim pod callEnd =>
    simp only [step] at hstep
    split at hstep <;> try cases hstep
    rename_i pass fire hphase
    cases callEnd with
    | answered =>
      simp only at hstep
      split_ifs at hstep with hwon <;> cases hstep
      · exact inv_won s pod _ pass fire h ((claim_won ..).mp hwon)
      · exact inv_frame s s.claims pod _ h hkeep nofun
    | failedBefore => cases hstep; exact inv_frame s s.claims pod _ h hkeep nofun
    | failedAfter => cases hstep; exact inv_frame s _ pod _ h (claimsKeep_claim _ _ _) nofun
  | claimNothing pod =>
    simp only [step] at hstep
    split at hstep <;> cases hstep
    exact inv_frame s s.claims pod _ h hkeep nofun
  | create pod callEnd runId =>
    simp only [step] at hstep
    split at hstep <;> try cases hstep
    rename_i pass fire hphase
    cases callEnd with
    | answered => cases hstep; exact inv_created s pod _ runId pass fire h hphase nofun
    | failedBefore => cases hstep; exact inv_frame s s.claims pod _ h hkeep nofun
    | failedAfter => cases hstep; exact inv_created s pod _ runId pass fire h hphase nofun
  | attach pod callEnd =>
    simp only [step] at hstep
    split at hstep <;> cases hstep
    refine inv_frame s _ pod _ h ?_ nofun
    cases callEnd with
    | failedBefore => exact hkeep
    | answered => exact claimsKeep_attach _ _ _
    | failedAfter => exact claimsKeep_attach _ _ _
  | finish pod =>
    simp only [step] at hstep
    split at hstep <;> cases hstep
    exact inv_frame s s.claims pod _ h hkeep nofun
  | crash pod => cases hstep; exact inv_frame s s.claims pod _ h hkeep nofun

theorem inv_run (cron : CronParser) {s s' : World} {as : List Action} (h : Inv s)
    (hrun : run (step cron) s as = some s') : Inv s' := run_invariant Inv (inv_step cron) h hrun

/-! ## Pods that look at the same window -/

def SameCronWindow (sched : Schedule) (now now' : Int) : Prop :=
  ∀ t, sched.instant t →
    (now - nanos 60 < t ∧ t ≤ now ↔ now' - nanos 60 < t ∧ t ≤ now')

variable {sched : Schedule} {now now' : Int}

theorem firstIn_imp_of_sameCronWindow {t : Int} (h : SameCronWindow sched now now')
    (ht : sched.firstIn now 60 = some t) : sched.firstIn now' 60 = some t := by
  obtain ⟨hinst, hlt, hle, hleast⟩ := firstIn_eq_some.mp ht
  obtain ⟨hlt', hle'⟩ := (h t hinst).mp ⟨hlt, hle⟩
  refine firstIn_eq_some.mpr ⟨hinst, hlt', hle', ?_⟩
  intro v hv hvlt
  by_cases hvle : v ≤ now'
  · exact hleast v hv ((h v hv).mpr ⟨hvlt, hvle⟩).1
  · omega

theorem firstIn_eq_of_sameCronWindow (h : SameCronWindow sched now now') :
    sched.firstIn now 60 = sched.firstIn now' 60 := by
  apply Option.ext
  intro t
  exact ⟨firstIn_imp_of_sameCronWindow h,
    firstIn_imp_of_sameCronWindow fun t ht => (h t ht).symm⟩

theorem sameCronWindow_of_same_minute (hminute : MinuteGranular sched)
    (h : now / nanos 60 = now' / nanos 60) : SameCronWindow sched now now' := by
  intro t ht
  obtain ⟨v, rfl⟩ := hminute t ht
  simp only [nanos] at *
  omega

theorem intervalFireInstant_eq_of_same_bucket {dur : String} {secs : Nat}
    (hdur : parseDurationSecs dur = .ok secs)
    (h : timestamp now / asI64 secs = timestamp now' / asI64 secs) :
    intervalFireInstant dur now = intervalFireInstant dur now' := by
  simp only [intervalFireInstant, hdur, bucketStart, h]

/-- In every reachable state each key has at most one run and its creator won the key's
claim, whatever the pods' clocks, crashes and failed calls. Communities claim
independently, and pods in one cron window or one bucket name the same instant. -/
theorem scheduled_fires_at_most_once (cron : CronParser) (clock : Int) (as : List Action)
    (s : World) (hrun : run (step cron) (.init clock) as = some s) :
    (s.runs.map fun r => r.fire.key).Nodup ∧
      (∀ r ∈ s.runs, ∃ row, s.claims.get? r.fire.key = some row ∧ row.winner = r.pod) ∧
      (∀ pod pod' key key', key.communityId ≠ key'.communityId →
        (claimScheduledWorkflowFire (claimScheduledWorkflowFire s.claims pod key).1 pod' key').2 =
          (claimScheduledWorkflowFire s.claims pod' key').2) ∧
      (∀ expr sched, cron.parse (normalizeCron expr) = some sched → ∀ now now',
        SameCronWindow sched now now' ∨
            (MinuteGranular sched ∧ now / nanos 60 = now' / nanos 60) →
          cronFireInstant cron expr now 60 = cronFireInstant cron expr now' 60) ∧
      ∀ dur secs, parseDurationSecs dur = .ok secs → ∀ now now',
        timestamp now / asI64 secs = timestamp now' / asI64 secs →
          intervalFireInstant dur now = intervalFireInstant dur now' := by
  have hinv := inv_run cron (inv_init clock) hrun
  refine ⟨hinv.once, hinv.won, fun pod pod' key key' h => claims_independent _ _ _ _ _ h, ?_, ?_⟩
  · intro expr sched hparse now now' hsame
    simp only [cronFireInstant, hparse]
    rcases hsame with hwindow | ⟨hminute, hmin⟩
    · exact firstIn_eq_of_sameCronWindow hwindow
    · exact firstIn_eq_of_sameCronWindow (sameCronWindow_of_same_minute hminute hmin)
  · intro dur secs hdur now now' hbucket
    exact intervalFireInstant_eq_of_same_bucket hdur hbucket

def twoPodsOneMinute : List Action :=
  let w : WorkflowRecord := ⟨4, 7, some 9, some ⟨true, .schedule (some "* * * * *") none⟩⟩
  [.wake 0 (nanos 43201) [w], .wake 1 (nanos 43205) [w], .decide 0 true true, .decide 1 true true,
    .claim 0 .answered, .claim 1 .answered, .create 0 .answered 100, .attach 0 .answered, .finish 0,
    .finish 1]

theorem scheduled_fires_at_most_once_twoPodsOneMinute :
    ∃ s, run (step everyMinuteCron) (.init 0) twoPodsOneMinute = some s ∧ s.runs.length = 1 ∧
      (s.runs.map fun r => r.fire.key).Nodup := by
  obtain ⟨s, hrun⟩ := Option.isSome_iff_exists.mp
    (show (run (step everyMinuteCron) (.init 0) twoPodsOneMinute).isSome by decide)
  have hlen : ((run (step everyMinuteCron) (.init 0) twoPodsOneMinute).map fun s => s.runs.length) =
      some 1 := by decide
  rw [hrun, Option.map_some, Option.some.injEq] at hlen
  exact ⟨s, hrun, hlen, (scheduled_fires_at_most_once everyMinuteCron 0 twoPodsOneMinute s hrun).1⟩

end Vingilot.Workflow
