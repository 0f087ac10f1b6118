import Vingilot.Coordinator.Executor

/-!
# Who passes the claim of a Run (`executor/src/lib.rs`)

The claim is the transition to `Running`. That transition is legal from `Ready`, which a Run leaves
only once, and also from `Paused`, `Blocked` and `Verifying`.
-/

namespace Vingilot.Coordinator.Execute

open Machine

def claimants (history : List Event) (runId : Uuid) : List Nat :=
  history.filterMap fun
    | .claimed i r => if r = runId then some i else none
    | _ => none

def spawners (history : List Event) (runId : Uuid) : List Nat :=
  history.filterMap fun
    | .spawned i r => if r = runId then some i else none
    | _ => none

/-- A claim is asked of no Run that is `Paused`, `Blocked` or `Verifying`. -/
def claimsReady (w : World) : Action → Bool
  | .request i _ _ =>
    match w.executors.get? i with
    | some ⟨_, runId, .claim _⟩ =>
      (w.db.runs.get? runId).all fun row =>
        row.status ≠ .paused && row.status ≠ .blocked && row.status ≠ .verifying
    | _ => true
  | _ => true

theorem claimants_append (history events : List Event) (runId : Uuid) :
    claimants (history ++ events) runId = claimants history runId ++ claimants events runId :=
  List.filterMap_append

theorem spawners_append (history events : List Event) (runId : Uuid) :
    spawners (history ++ events) runId = spawners history runId ++ spawners events runId :=
  List.filterMap_append

variable {runId : Uuid} {i : Nat}

theorem mem_claimants {history : List Event} :
    i ∈ claimants history runId ↔ .claimed i runId ∈ history := by
  unfold claimants
  rw [List.mem_filterMap]
  constructor
  · rintro ⟨event, hevent, h⟩
    split at h
    · split_ifs at h with hrun
      cases h
      subst hrun
      exact hevent
    · cases h
  · intro h; exact ⟨_, h, by simp⟩

theorem mem_spawners {history : List Event} :
    i ∈ spawners history runId ↔ .spawned i runId ∈ history := by
  unfold spawners
  rw [List.mem_filterMap]
  constructor
  · rintro ⟨event, hevent, h⟩
    split at h
    · split_ifs at h with hrun
      cases h
      subst hrun
      exact hevent
    · cases h
  · intro h; exact ⟨_, h, by simp⟩

variable {events : List Event}

theorem Effect.runChange {db db' : Db} (h : Effect db db' events) : RunChange db db' := by
  rcases h with rfl | ⟨c, rfl, -⟩
  · exact .same rfl rfl
  · exact (c.change db).runs

/-! ## At most one claim -/

/-- A Run that has been claimed is past `Ready`, and it has been claimed once. -/
structure Claimed (w : World) : Prop where
  past : ∀ runId, claimants w.history runId ≠ [] →
    ∃ row, w.db.runs.get? runId = some row ∧ row.status.stage = 3
  once : ∀ runId, (claimants w.history runId).length ≤ 1

variable {w w' : World}

theorem Claimed.kept (h : Claimed w) (hruns : RunChange w.db w'.db)
    (hhistory : w'.history = w.history ++ events) (hquiet : ∀ runId, claimants events runId = []) :
    Claimed w' := by
  constructor
  · intro runId hclaimed
    rw [hhistory, claimants_append, hquiet, List.append_nil] at hclaimed
    obtain ⟨row, hrow, hstage⟩ := h.past runId hclaimed
    obtain ⟨row', hrow', hle⟩ := hruns.stage_le hrow
    have hmax := RunStatus.stage_le_three row'.status
    exact ⟨row', hrow', by omega⟩
  · intro runId
    rw [hhistory, claimants_append, hquiet, List.append_nil]
    exact h.once runId

theorem stage_two_of_ready {s : RunStatus} (h : s.canTransitionTo .running = true)
    (hready : (s ≠ .paused && s ≠ .blocked && s ≠ .verifying) = true) : s.stage = 2 := by
  cases s <;> simp_all [RunStatus.canTransitionTo, RunStatus.stage]

variable {a : Action}

theorem Claimed.step (h : Claimed w) (hready : claimsReady w a = true) (hstep : step w a = some w') :
    Claimed w' := by
  cases step_stepped hstep with
  | call c ha hw =>
    subst hw
    refine h.kept (c.change w.db).runs rfl ?_
    intro runId
    rcases leasedBy_eq w.db c with hnone | ⟨b, hone⟩
    · rw [hnone]; rfl
    · rw [hone]; rfl
  | start config runId hw =>
    subst hw
    exact h.kept (.same rfl rfl) (List.append_nil _).symm fun _ => rfl
  | moves i e stage events hmoves =>
    obtain ⟨config, runId, old⟩ := e
    cases hmoves.goes with
    | claim job now gitOk row ha hrow hlegal hrunning =>
      subst ha
      simp only [claimsReady, hmoves.here, hrow, Option.all_some] at hready
      have htwo := stage_two_of_ready hlegal hready
      have hnone : claimants w.history runId = [] := by
        by_contra hclaimed
        obtain ⟨row', hrow', hthree⟩ := h.past runId hclaimed
        obtain rfl : row = row' := Option.some.inj (hrow.symm.trans hrow')
        omega
      have hother : ∀ r, r ≠ runId → claimants [Event.claimed i runId] r = [] := by
        intro r hr
        simp [claimants, Ne.symm hr]
      constructor
      · intro r hclaimed
        by_cases hr : r = runId
        · subst hr
          obtain ⟨row', hrow', hstatus⟩ := hrunning
          exact ⟨row', hrow', by rw [hstatus]; rfl⟩
        · rw [hmoves.history, claimants_append, hother r hr, List.append_nil] at hclaimed
          obtain ⟨row', hrow', hstage⟩ := h.past r hclaimed
          obtain ⟨row'', hrow'', hle⟩ := hmoves.effect.runChange.stage_le hrow'
          have hmax := RunStatus.stage_le_three row''.status
          exact ⟨row'', hrow'', by omega⟩
      · intro r
        rw [hmoves.history, claimants_append]
        by_cases hr : r = runId
        · subst hr
          rw [hnone, List.nil_append]
          simp [claimants]
        · rw [hother r hr, List.append_nil]
          exact h.once r
    | _ => exact h.kept hmoves.effect.runChange hmoves.history fun _ => rfl

/-! ## At most one child for each claim -/

def Stage.holdsClaim : Stage → Bool
  | .lease _ => true
  | .fenceWorktree _ => true
  | .worktree _ => true
  | .fenceCommand _ => true
  | .spawn _ => true
  | _ => false

def Stage.beforeClaim : Stage → Bool
  | .getRun => true
  | .getGrants _ => true
  | .claim _ => true
  | _ => false

def Stage.maySpawn (s : Stage) : Bool := s.beforeClaim || s.holdsClaim

theorem Goes.maySpawn {s s' : Stage} (h : Goes w w' a i runId s s' events)
    (hs' : s'.maySpawn = true) : s.maySpawn = true := by
  cases h <;> first | rfl | cases hs'

theorem Goes.holdsClaim {s s' : Stage} (h : Goes w w' a i runId s s' events)
    (hs' : s'.holdsClaim = true) : s.holdsClaim = true ∨ .claimed i runId ∈ events := by
  cases h with
  | claim => exact .inr (List.mem_singleton_self _)
  | getRun => cases hs'
  | getGrants => cases hs'
  | lostLease => cases hs'
  | gitFailed => cases hs'
  | spawn => cases hs'
  | renew => cases hs'
  | exit => cases hs'
  | capture => cases hs'
  | captureFailed => cases hs'
  | verifying => cases hs'
  | completed => cases hs'
  | lostCompleted => cases hs'
  | failed => cases hs'
  | returned => cases hs'
  | _ => exact .inl rfl

structure Spawns (w : World) : Prop where
  fresh : ∀ i, w.started ≤ i → w.executors.get? i = none
  claimed : ∀ i e, w.executors.get? i = some e → e.stage.holdsClaim = true →
    .claimed i e.runId ∈ w.history
  /-- An executor that may still spawn a child has not spawned one, nor has one that is not there. -/
  unspawned : ∀ i, (∀ e, w.executors.get? i = some e →
    e.stage.maySpawn = true) → ∀ r, .spawned i r ∉ w.history
  spawned : ∀ i r, .spawned i r ∈ w.history → .claimed i r ∈ w.history
  nodup : ∀ r, (spawners w.history r).Nodup

theorem Spawns.kept (h : Spawns w) (hhistory : w'.history = w.history ++ events)
    (hquiet : ∀ i r, .spawned i r ∉ events)
    (hfresh : ∀ i, w'.started ≤ i → w'.executors.get? i = none)
    (hclaimed : ∀ i e, w'.executors.get? i = some e → e.stage.holdsClaim = true →
      .claimed i e.runId ∈ w'.history)
    (hback : ∀ i, (∀ e, w'.executors.get? i = some e →
        e.stage.maySpawn = true) →
      ∀ e, w.executors.get? i = some e → e.stage.maySpawn = true) : Spawns w' where
  fresh := hfresh
  claimed := hclaimed
  unspawned := by
    intro i hi r hr
    rw [hhistory, List.mem_append] at hr
    rcases hr with hr | hr
    · exact h.unspawned i (hback i hi) r hr
    · exact hquiet i r hr
  spawned := by
    intro i r hr
    rw [hhistory, List.mem_append] at hr ⊢
    rcases hr with hr | hr
    · exact .inl (h.spawned i r hr)
    · exact absurd hr (hquiet i r)
  nodup := by
    intro r
    have hnone : spawners events r = [] := by
      rw [List.eq_nil_iff_forall_not_mem]
      intro i hi
      exact hquiet i r (mem_spawners.mp hi)
    rw [hhistory, spawners_append, hnone, List.append_nil]
    exact h.nodup r

variable {e : Executor} {stage : Stage}

theorem Moves.fresh (hmoves : Moves w w' a i e stage events) (h : Spawns w) :
    ∀ j, w'.started ≤ j → w'.executors.get? j = none := by
  intro j hj
  rw [hmoves.started] at hj
  rw [hmoves.executors]
  by_cases hji : j = i
  · subst hji
    have hhere := hmoves.here
    rw [h.fresh j hj] at hhere
    cases hhere
  · rw [if_neg hji]
    exact h.fresh j hj

theorem Moves.claimed (hmoves : Moves w w' a i e stage events) (h : Spawns w) :
    ∀ j e', w'.executors.get? j = some e' → e'.stage.holdsClaim = true →
      .claimed j e'.runId ∈ w'.history := by
  intro j e' he' hholds
  rw [hmoves.history, List.mem_append]
  rw [hmoves.executors] at he'
  split_ifs at he' with hji
  · cases he'
    subst hji
    rcases hmoves.goes.holdsClaim hholds with hold | hnew
    · exact .inl (h.claimed j e hmoves.here hold)
    · exact .inr hnew
  · exact .inl (h.claimed j e' he' hholds)

theorem Moves.maySpawn (hmoves : Moves w w' a i e stage events) (j : Nat)
    (hj : ∀ e', w'.executors.get? j = some e' → e'.stage.maySpawn = true) :
    ∀ e', w.executors.get? j = some e' → e'.stage.maySpawn = true := by
  intro e' he'
  by_cases hji : j = i
  · subst hji
    obtain rfl : e = e' := Option.some.inj (hmoves.here.symm.trans he')
    exact hmoves.goes.maySpawn (hj _ (by rw [hmoves.executors, if_pos rfl]))
  · exact hj e' (by rw [hmoves.executors, if_neg hji]; exact he')

theorem Spawns.spawn {held : Held} (h : Spawns w)
    (hmoves : Moves w w' a i e (.running held) [.spawned i e.runId])
    (hspawn : e.stage = .spawn held) : Spawns w' := by
  have hclaimed : .claimed i e.runId ∈ w.history := h.claimed i e hmoves.here (by rw [hspawn]; rfl)
  have hnone : ∀ r, .spawned i r ∉ w.history := by
    refine h.unspawned i ?_
    intro e' he'
    obtain rfl : e = e' := Option.some.inj (hmoves.here.symm.trans he')
    rw [hspawn]
    rfl
  refine ⟨hmoves.fresh h, hmoves.claimed h, ?_, ?_, ?_⟩
  · intro j hj r hr
    rw [hmoves.history, List.mem_append] at hr
    rcases hr with hr | hr
    · exact h.unspawned j (hmoves.maySpawn j hj) r hr
    · cases List.mem_singleton.mp hr
      have hrunning := hj _ (by rw [hmoves.executors, if_pos rfl])
      cases hrunning
  · intro j r hr
    rw [hmoves.history, List.mem_append] at hr ⊢
    rcases hr with hr | hr
    · exact .inl (h.spawned j r hr)
    · cases List.mem_singleton.mp hr
      exact .inl hclaimed
  · intro r
    rw [hmoves.history, spawners_append, List.nodup_append]
    refine ⟨h.nodup r, ?_, ?_⟩
    · unfold spawners
      simp only [List.filterMap_cons, List.filterMap_nil]
      split_ifs <;> simp
    · intro j hj k hk
      have hk' := List.mem_singleton.mp (mem_spawners.mp hk)
      cases hk'
      rintro rfl
      exact hnone _ (mem_spawners.mp hj)

theorem Spawns.step (h : Spawns w) (hstep : step w a = some w') : Spawns w' := by
  cases step_stepped hstep with
  | call c ha hw =>
    subst hw
    refine h.kept rfl ?_ h.fresh ?_ fun _ hi => hi
    · intro i r hr
      rcases leasedBy_eq w.db c with hnone | ⟨b, hone⟩
      · rw [hnone] at hr; cases hr
      · rw [hone] at hr; cases List.mem_singleton.mp hr
    · intro i e he hholds
      exact List.mem_append_left _ (h.claimed i e he hholds)
  | start config runId hw =>
    subst hw
    have hnew : w.executors.get? w.started = none := h.fresh w.started (Nat.le_refl _)
    refine h.kept (List.append_nil _).symm (fun _ _ hr => by cases hr) ?_ ?_ ?_
    · intro i hi
      simp only at hi
      rw [Table.get?_set, if_neg (by omega)]
      exact h.fresh i (by omega)
    · intro i e he hholds
      rw [Table.get?_set] at he
      split_ifs at he
      · cases he; cases hholds
      · exact h.claimed i e he hholds
    · intro i hi e he
      have hne : i ≠ w.started := by
        rintro rfl
        rw [hnew] at he
        cases he
      exact hi e (by rw [Table.get?_set, if_neg hne]; exact he)
  | moves i e stage events hmoves =>
    have hquiet (hnone : ∀ j r, .spawned j r ∉ events) : Spawns w' :=
      h.kept hmoves.history hnone (hmoves.fresh h) (hmoves.claimed h) hmoves.maySpawn
    obtain ⟨config, runId, old⟩ := e
    cases hmoves.goes with
    | spawn held => exact h.spawn hmoves rfl
    | claim => exact hquiet fun _ _ hr => by cases List.mem_singleton.mp hr
    | lease => exact hquiet fun _ _ hr => by cases List.mem_singleton.mp hr
    | lostLease => exact hquiet fun _ _ hr => by cases List.mem_singleton.mp hr
    | completed => exact hquiet fun _ _ hr => by cases List.mem_singleton.mp hr
    | lostCompleted => exact hquiet fun _ _ hr => by cases List.mem_singleton.mp hr
    | _ => exact hquiet fun _ _ hr => by cases hr

/-- In a run whose claims are asked of no Run that is `Paused`, `Blocked` or `Verifying`, at most one
executor ever passes the claim of a Run, and at most one child is spawned for it. -/
theorem at_most_one_executor {db : Db} {actions : List Action} {w : World}
    (hrun : run step (.init db) actions = some w)
    (hmeets : Meets step (fun w a => claimsReady w a = true) (.init db) actions) (runId : Uuid) :
    (claimants w.history runId).length ≤ 1 ∧ (spawners w.history runId).length ≤ 1 := by
  have hclaimed : Claimed w := by
    refine run_invariant_of_meets Claimed ?_ ?_ hmeets hrun
    · intro w a w' hw hc hstep
      exact hw.step hc hstep
    · exact ⟨fun _ hne => absurd rfl hne, fun _ => Nat.zero_le _⟩
  have hspawns : Spawns w := by
    refine run_invariant Spawns ?_ ?_ hrun
    · intro w a w' hw hstep
      exact hw.step hstep
    · exact ⟨fun _ _ => rfl, fun _ _ he => (by cases he), fun _ _ _ hr => (by cases hr),
        fun _ _ hr => (by cases hr), fun _ => List.nodup_nil⟩
  refine ⟨hclaimed.once runId, ?_⟩
  have hsub : spawners w.history runId ⊆ claimants w.history runId := by
    intro i hi
    exact mem_claimants.mpr (hspawns.spawned i runId (mem_spawners.mp hi))
  have hle := (List.subperm_of_subset (hspawns.nodup runId) hsub).length_le
  exact hle.trans (hclaimed.once runId)

theorem at_most_one_executor_claimed : ∃ w : World,
    run step (.init .empty) (seenReady ++ executes 0 10 ++ [Action.request 1 20 true]) = some w ∧
      claimants w.history 1 = [0] ∧ (claimants w.history 1).length ≤ 1 ∧
      (spawners w.history 1).length ≤ 1 := by
  have hdemo : ((run step (.init .empty)
      (seenReady ++ executes 0 10 ++ [Action.request 1 20 true])).any fun w =>
        claimants w.history 1 == [0]) = true := by decide +kernel
  have hmeets : Meets step (fun w a => claimsReady w a = true) (.init .empty)
      (seenReady ++ executes 0 10 ++ [Action.request 1 20 true]) := by decide +kernel
  obtain ⟨w, hrun, h⟩ := (Option.any_eq_true _ _).mp hdemo
  exact ⟨w, hrun, eq_of_beq h, at_most_one_executor hrun hmeets 1⟩

/-- The user pauses the Run of the first executor, and the second one claims it from `Paused`. -/
theorem paused_run_claimed_twice :
    ¬ ∀ (actions : List Action) (w : World), run step (.init .empty) actions = some w →
      ∀ runId, (claimants w.history runId).length ≤ 1 ∧ (spawners w.history runId).length ≤ 1 := by
  have hdemo : ((run step (.init .empty) (seenReady ++ executes 0 10 ++
      [.call (.transition 1 .paused "wait" 20)] ++ executes 1 30)).any fun w =>
        claimants w.history 1 == [0, 1] && spawners w.history 1 == [0, 1]) = true := by
    decide +kernel
  obtain ⟨w, hrun, h⟩ := (Option.any_eq_true _ _).mp hdemo
  simp only [Bool.and_eq_true, beq_iff_eq] at h
  intro hall
  have hone := (hall _ w hrun 1).1
  rw [h.1] at hone
  exact absurd hone (by decide)

end Vingilot.Coordinator.Execute
