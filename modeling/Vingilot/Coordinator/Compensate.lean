import Vingilot.Coordinator.Saga

/-!
# What a failed call leaves behind (`coordinator/src/saga.rs`)

A step of the loop that fails leads to `compensate`. The transition to `Ready` after the loop does
not, and a statement of `compensate` that fails ends it.
-/

namespace Vingilot.Coordinator.Saga

open Machine

variable {spec : ProvisionSpec} {db db' : Db} {runId : Uuid}

/-! ## What is left -/

def Revoked (db : Db) (runId : Uuid) : Prop := ∀ b, db.runWorktreeGrants.get? (runId, b) = none

def Clean (db : Db) (runId : Uuid) : Prop :=
  (∀ b row, db.worktreeBindings.get? b = some row → row.ownerRunId = some runId →
    row.lifecycle ≠ .ready) ∧ Revoked db runId

def clean (db : Db) (runId : Uuid) : Bool :=
  (ownedBindings db runId).all (·.2 ≠ .ready) && db.runWorktreeGrants.toList.all (·.1.1 ≠ runId)

theorem clean_iff : clean db runId = true ↔ Clean db runId := by
  simp only [clean, Bool.and_eq_true, List.all_eq_true, decide_eq_true_eq]
  constructor
  · rintro ⟨hbindings, hgrants⟩
    refine ⟨fun b row hrow howner => ?_, fun b => ?_⟩
    · exact hbindings (b, row.lifecycle) (mem_ownedBindings.mpr ⟨row, hrow, howner, rfl⟩)
    · cases hgrant : db.runWorktreeGrants.get? (runId, b) with
      | none => rfl
      | some access => exact absurd rfl (hgrants _ ((Table.mem_toList ..).mpr hgrant))
  · rintro ⟨hbindings, hgrants⟩
    refine ⟨fun x hx => ?_, fun x hx heq => ?_⟩
    · obtain ⟨row, hrow, howner, hlifecycle⟩ := mem_ownedBindings.mp hx
      rw [← hlifecycle]
      exact hbindings x.1 row hrow howner
    · have hgrant : db.runWorktreeGrants.get? x.1 = some x.2 := (Table.mem_toList ..).mp hx
      rw [show x.1 = (runId, x.1.2) from Prod.ext heq rfl, hgrants x.1.2] at hgrant
      cases hgrant

/-- The final transition is made on a Run that is still `Provisioning`, and its answer arrives. The
first three kinds of statements of `compensate` do not fail, and a Run whose first transition is
carried out without an answer holds nothing yet. -/
def compensates (spec : ProvisionSpec) (w : World) : Action → Bool
  | .exec _ =>
    match w.call with
    | some .finish => (w.db.runs.get? spec.runId).any (·.status = .provisioning)
    | _ => true
  | .failure => answered w.call
  | .lost _ =>
    match w.call with
    | some .enter => clean w.db spec.runId
    | _ => answered w.call
  | _ => true
where
  answered : Option Stage → Bool
    | some .finish => false
    | some (.revoke _) => false
    | some (.listBindings _) => false
    | some (.label _ _ _ _) => false
    | _ => true

/-! ## What `compensate` has done -/

def Listed (db : Db) (runId : Uuid) (ids : List Uuid) : Prop :=
  ∀ b row, db.worktreeBindings.get? b = some row → row.ownerRunId = some runId →
    row.lifecycle = .ready → b ∈ ids

def Walked (db : Db) (runId : Uuid) : Stage → Prop
  | .listBindings _ => Revoked db runId
  | .label _ bindingId _ todo =>
    Revoked db runId ∧ Listed db runId (bindingId :: todo.map Prod.fst)
  | .readFailed _ => Clean db runId
  | .fail _ => Clean db runId
  | _ => True

theorem revoked_revokeGrants (db : Db) (runId : Uuid) : Revoked (revokeGrants db runId) runId := by
  intro b
  show (db.runWorktreeGrants.removeWhere _).get? (runId, b) = none
  rw [Table.get?_removeWhere]
  cases db.runWorktreeGrants.get? (runId, b) <;> simp [Option.filter]

theorem listed_ownedBindings (db : Db) (runId : Uuid) :
    Listed db runId ((ownedBindings db runId).map Prod.fst) := by
  intro b row hrow howner _
  exact List.mem_map.mpr ⟨(b, row.lifecycle), mem_ownedBindings.mpr ⟨row, hrow, howner, rfl⟩, rfl⟩

theorem walked_nextBinding {error : SagaError} {todo : List (Uuid × Lifecycle)}
    (hrevoked : Revoked db runId) (hlisted : Listed db runId (todo.map Prod.fst)) :
    Walked db runId (nextBinding error todo) := by
  cases todo with
  | nil =>
    refine ⟨fun b row hrow howner hready => ?_, hrevoked⟩
    cases hlisted b row hrow howner hready
  | cons x todo => exact ⟨hrevoked, hlisted⟩

theorem walkBack_ne_ready (lifecycle : Lifecycle) : walkBack lifecycle ≠ .ready := by
  cases lifecycle <;> decide

theorem Listed.setLifecycle {bindingId : Uuid} {ids : List Uuid} {lifecycle : Lifecycle}
    (h : Listed db runId (bindingId :: ids)) (hlifecycle : lifecycle ≠ .ready) :
    Listed (setLifecycle db bindingId lifecycle) runId ids := by
  have hother : ∀ b row, db.worktreeBindings.get? b = some row → b ≠ bindingId →
      row.ownerRunId = some runId → row.lifecycle = .ready → b ∈ ids := by
    intro b row hrow hne howner hready
    exact (List.mem_cons.mp (h b row hrow howner hready)).resolve_left hne
  rcases setLifecycle_cases db bindingId lifecycle with ⟨hsame, hnone⟩ | ⟨old, hold, hset⟩
  · rw [hsame]
    intro b row hrow howner hready
    refine hother b row hrow ?_ howner hready
    rintro rfl
    rw [hnone] at hrow
    cases hrow
  · rw [hset]
    intro b row hrow howner hready
    simp only [Table.get?_set] at hrow
    split_ifs at hrow with hb
    · cases hrow
      exact absurd hready hlifecycle
    · exact hother b row hrow hb howner hready

theorem Revoked.setLifecycle {bindingId : Uuid} {lifecycle : Lifecycle} (h : Revoked db runId) :
    Revoked (setLifecycle db bindingId lifecycle) runId := by
  rcases setLifecycle_cases db bindingId lifecycle with ⟨hsame, -⟩ | ⟨old, -, hset⟩
  · rw [hsame]; exact h
  · rw [hset]; exact h

theorem Clean.transition {id : Uuid} {toStatus : RunStatus} {reason : String} {now : Int}
    (h : Clean db runId) (hok : Run.transition db id toStatus reason now = .ok db') :
    Clean db' runId := by
  obtain ⟨row, -, -, rfl⟩ := Run.transition_ok hok
  exact h

variable {stage : Stage}

theorem Walked.transition {id : Uuid} {toStatus : RunStatus} {reason : String} {now : Int}
    (h : Walked db runId stage) (hok : Run.transition db id toStatus reason now = .ok db') :
    Walked db' runId stage := by
  obtain ⟨row, -, -, rfl⟩ := Run.transition_ok hok
  cases stage <;> exact h

theorem nextWorktree_moved (todo : List WorktreeSpec) : (nextWorktree todo).moved = true := by
  cases todo <;> rfl

theorem nextBinding_moved (error : SagaError) (todo : List (Uuid × Lifecycle)) :
    (nextBinding error todo).moved = true := by
  cases todo <;> rfl

theorem walked_nextWorktree (todo : List WorktreeSpec) : Walked db runId (nextWorktree todo) := by
  cases todo <;> trivial

/-! ## One statement -/

def Leads (spec : ProvisionSpec) (stage : Stage) (db : Db) : Next → Prop
  | .go next => next.moved = true ∧ Walked db spec.runId next
  | .done (.ok ()) => True
  | .done (.error _) => stage = .finish ∨ Clean db spec.runId

theorem Stage.exec_leads (hmoved : stage.moved = true) (hwalked : Walked db spec.runId stage)
    (now : Int) (id : Uuid) :
    Leads spec stage (stage.exec spec db now id).1 (stage.exec spec db now id).2 := by
  cases stage with
  | readStatus => cases hmoved
  | enter => cases hmoved
  | create wt todo =>
    simp only [Stage.exec]
    cases createBinding db id spec.runId wt.new <;> exact ⟨rfl, trivial⟩
  | owner bindingId wt todo =>
    simp only [Stage.exec]
    split
    · exact ⟨rfl, trivial⟩
    · split_ifs <;> exact ⟨rfl, trivial⟩
  | grant bindingId wt todo =>
    simp only [Stage.exec]
    cases Coordinator.grant db spec.runId bindingId wt.access <;> exact ⟨rfl, trivial⟩
  | hasActive bindingId wt todo =>
    simp only [Stage.exec]
    split
    · exact ⟨rfl, trivial⟩
    · split_ifs
      · exact ⟨nextWorktree_moved todo, walked_nextWorktree todo⟩
      · exact ⟨rfl, trivial⟩
  | acquire bindingId wt todo =>
    simp only [Stage.exec]
    cases acquireLease db bindingId provisionLeaseTtlSecs now with
    | error error => exact ⟨rfl, trivial⟩
    | ok p => exact ⟨nextWorktree_moved todo, walked_nextWorktree todo⟩
  | finish =>
    simp only [Stage.exec]
    cases Run.transition db spec.runId .ready "provisioning complete" now with
    | error error => exact .inl rfl
    | ok db' => trivial
  | revoke error => exact ⟨rfl, revoked_revokeGrants db spec.runId⟩
  | listBindings error =>
    exact ⟨nextBinding_moved .., walked_nextBinding hwalked (listed_ownedBindings db spec.runId)⟩
  | label error bindingId lifecycle todo =>
    exact ⟨nextBinding_moved .., walked_nextBinding hwalked.1.setLifecycle
      (hwalked.2.setLifecycle (walkBack_ne_ready lifecycle))⟩
  | readFailed error =>
    simp only [Stage.exec]
    split
    · exact .inr hwalked
    · split_ifs
      · exact .inr hwalked
      · exact ⟨rfl, hwalked⟩
  | fail error =>
    simp only [Stage.exec]
    cases h : Run.transition db spec.runId .failed "provisioning saga compensated" now with
    | error e => exact .inr hwalked
    | ok db' => exact .inr (Clean.transition hwalked h)

theorem Stage.onFailure_leads (hmoved : stage.moved = true)
    (hanswered : compensates.answered (some stage) = true) {db : Db}
    (hwalked : ∀ error, stage = .readFailed error ∨ stage = .fail error → Clean db spec.runId) :
    Leads spec stage db stage.onFailure := by
  cases stage with
  | readStatus => cases hmoved
  | enter => cases hmoved
  | finish => cases hanswered
  | revoke error => cases hanswered
  | listBindings error => cases hanswered
  | label error bindingId lifecycle todo => cases hanswered
  | readFailed error => exact .inr (hwalked error (.inl rfl))
  | fail error => exact .inr (hwalked error (.inr rfl))
  | create wt todo => exact ⟨rfl, trivial⟩
  | owner bindingId wt todo => exact ⟨rfl, trivial⟩
  | grant bindingId wt todo => exact ⟨rfl, trivial⟩
  | hasActive bindingId wt todo => exact ⟨rfl, trivial⟩
  | acquire bindingId wt todo => exact ⟨rfl, trivial⟩

/-! ## Runs -/

structure Kept (spec : ProvisionSpec) (w : World) : Prop where
  walked : ∀ stage, w.call = some stage → Walked w.db spec.runId stage
  returned : ∀ r error, w.returned = some r → r.moved = true → r.result = .error error →
    Clean w.db spec.runId

variable {w : World}

theorem kept_goOn {moved : Bool} (stage : Stage) {next : Next} (hleads : Leads spec stage db next)
    (hfinish : stage = .finish → ∀ error, next ≠ .done (.error error)) :
    Kept spec (w.goOn db moved next) := by
  cases next with
  | go next =>
    refine ⟨fun s hs => ?_, fun _ _ hr => (by cases hr)⟩
    cases hs
    exact hleads.2
  | done result =>
    refine ⟨fun _ hs => (by cases hs), ?_⟩
    intro r error hr _ herror
    cases hr
    cases result with
    | ok => cases herror
    | error e => exact hleads.resolve_left fun hstage => hfinish hstage e rfl

theorem kept_unmoved {result : Except SagaError Unit} :
    Kept spec (w.goOn db false (.done result)) := by
  refine ⟨fun _ hs => (by cases hs), ?_⟩
  intro r error hr hmoved
  cases hr
  cases hmoved

theorem kept_nextWorktree {moved : Bool} (todo : List WorktreeSpec) :
    Kept spec (w.goOn db moved (.go (nextWorktree todo))) := by
  refine ⟨fun s hs => ?_, fun _ _ hr => (by cases hr)⟩
  cases hs
  exact walked_nextWorktree todo

theorem Kept.exec_moved (h : Kept spec w) (hcall : w.call = some stage)
    (hmoved : stage.moved = true) (id : Uuid)
    (hfinish : stage = .finish →
      (w.db.runs.get? spec.runId).any (·.status = .provisioning) = true) :
    Kept spec (w.goOn (stage.exec spec w.db w.clock id).1 stage.moved
      (stage.exec spec w.db w.clock id).2) := by
  refine kept_goOn stage (stage.exec_leads hmoved (h.walked stage hcall) w.clock id) ?_
  rintro rfl error heq
  obtain ⟨row, hrow, hprovisioning⟩ := (Option.any_eq_true _ _).mp (hfinish rfl)
  have hstatus : row.status = .provisioning := of_decide_eq_true hprovisioning
  simp [Stage.exec, Run.transition, hrow, hstatus, RunStatus.canTransitionTo] at heq

theorem exec_unmoved (hmoved : stage.moved = false) (id : Uuid) :
    Kept spec (w.goOn (stage.exec spec w.db w.clock id).1 stage.moved
      (stage.exec spec w.db w.clock id).2) := by
  cases stage with
  | readStatus =>
    simp only [Stage.exec]
    cases hrow : w.db.runs.get? spec.runId with
    | none => exact kept_unmoved
    | some row =>
      cases hstatus : row.status with
      | draft =>
        simp only [hstatus]
        refine ⟨fun s hs => ?_, fun _ _ hr => (by cases hr)⟩
        cases hs
        trivial
      | provisioning => simp only [hstatus]; exact kept_nextWorktree spec.worktrees
      | _ => simp only [hstatus]; exact kept_unmoved
  | enter =>
    simp only [Stage.exec]
    cases Run.transition w.db spec.runId .provisioning "provisioning started" w.clock with
    | error error => exact kept_unmoved
    | ok db' => exact kept_nextWorktree spec.worktrees
  | _ => cases hmoved

theorem lost_enter (id : Uuid) (hclean : Clean w.db spec.runId) :
    Clean (Stage.enter.exec spec w.db w.clock id).1 spec.runId := by
  simp only [Stage.exec]
  cases hok : Run.transition w.db spec.runId .provisioning "provisioning started" w.clock with
  | error error => exact hclean
  | ok db' => exact hclean.transition hok

theorem Stage.exec_clean (hwalked : Walked db spec.runId stage) (now : Int) (id : Uuid)
    {error : SagaError} (hlast : stage = .readFailed error ∨ stage = .fail error) :
    Clean (stage.exec spec db now id).1 spec.runId := by
  rcases hlast with rfl | rfl
  · simp only [Stage.exec]
    split
    · exact hwalked
    · exact hwalked
  · simp only [Stage.exec]
    cases hok : Run.transition db spec.runId .failed "provisioning saga compensated" now with
    | error e => exact hwalked
    | ok db' => exact Clean.transition hwalked hok

theorem Kept.step {w' : World} {a : Action} (h : Kept spec w) (hcond : compensates spec w a = true)
    (hstep : step spec w a = some w') : Kept spec w' := by
  cases a with
  | tick micros => cases hstep; exact ⟨h.walked, fun _ _ hr => (by cases hr)⟩
  | transition runId toStatus reason =>
    cases hstep
    refine ⟨fun stage hs => ?_, fun _ _ hr => (by cases hr)⟩
    have hwalked := h.walked stage hs
    show Walked (committed w.db (Run.transition w.db runId toStatus reason w.clock)) _ _
    cases hok : Run.transition w.db runId toStatus reason w.clock with
    | error e => exact hwalked
    | ok db' => exact hwalked.transition hok
  | provision =>
    simp only [Saga.step] at hstep
    split at hstep
    · cases hstep
      refine ⟨fun s hs => ?_, fun _ _ hr => (by cases hr)⟩
      cases hs
      trivial
    · cases hstep
  | exec id =>
    obtain ⟨stage, hcall, rfl⟩ := step_exec hstep
    cases hmoved : stage.moved with
    | false => exact hmoved ▸ exec_unmoved hmoved id
    | true =>
      refine hmoved ▸ h.exec_moved hcall hmoved id ?_
      rintro rfl
      simpa only [compensates, hcall] using hcond
  | failure =>
    obtain ⟨stage, hcall, rfl⟩ := step_failure hstep
    have hanswered : compensates.answered (some stage) = true := by
      rw [← hcall]
      exact hcond
    cases hmoved : stage.moved with
    | false => cases stage <;> first | exact kept_unmoved | cases hmoved
    | true =>
      refine kept_goOn stage (stage.onFailure_leads hmoved hanswered fun error hlast => ?_) ?_
      · have hwalked := h.walked stage hcall
        rcases hlast with rfl | rfl <;> exact hwalked
      · rintro rfl
        cases hanswered
  | lost id =>
    obtain ⟨stage, hcall, rfl⟩ := step_lost hstep
    cases hmoved : stage.moved with
    | false =>
      cases stage with
      | readStatus => exact kept_unmoved
      | enter =>
        refine ⟨fun _ hs => (by cases hs), fun _ _ _ _ _ => lost_enter id (clean_iff.mp ?_)⟩
        simpa only [compensates, hcall] using hcond
      | _ => cases hmoved
    | true =>
      have hanswered : compensates.answered (some stage) = true := by
        cases stage with
        | readStatus => rfl
        | enter => rfl
        | _ => simpa only [compensates, hcall] using hcond
      refine kept_goOn stage (stage.onFailure_leads hmoved hanswered fun error hlast => ?_) ?_
      · exact stage.exec_clean (h.walked stage hcall) w.clock id hlast
      · rintro rfl
        cases hanswered
  | crash =>
    cases hstep
    exact ⟨fun _ hs => (by cases hs), fun _ _ hr => (by cases hr)⟩

/-- A call that returns an error after the Run was moved into `Provisioning` leaves no binding of the
Run ready and none of its grants, in every run whose final transitions are made on a Run that is
still `Provisioning` and whose compensations are not cut short by the database. -/
theorem failed_provision_clean {actions : List Action} {w : World}
    (hrun : run (step spec) (.init db) actions = some w)
    (hmeets : Meets (step spec) (fun w a => compensates spec w a = true) (.init db) actions) :
    ∀ r error, w.returned = some r → r.moved = true → r.result = .error error →
      Clean w.db spec.runId := by
  have hinit : Kept spec (.init db) :=
    ⟨fun _ hs => (by cases hs), fun _ _ hr => (by cases hr)⟩
  have hkept : Kept spec w :=
    run_invariant_of_meets (Kept spec) (fun _ _ _ hw hc hstep => hw.step hc hstep) hinit hmeets hrun
  exact hkept.returned

/-- The lease cannot be taken. The call walks the binding back and revokes its grant. -/
theorem failed_provision_clean_lease : ∃ w : World,
    run (step oneWorktree) (.init drafted)
        ([Action.provision] ++ execs 5 6 ++ [Action.failure] ++ execs 5 5) = some w ∧
      (w.db.worktreeBindings.get? 5).map (·.lifecycle) = some .quarantined ∧
      (w.db.runs.get? 1).map (·.status) = some .failed ∧
      ∀ r error, w.returned = some r → r.moved = true → r.result = .error error →
        Clean w.db 1 := by
  have hdemo : ((run (step oneWorktree) (.init drafted)
      ([Action.provision] ++ execs 5 6 ++ [Action.failure] ++ execs 5 5)).any fun w =>
        (w.db.worktreeBindings.get? 5).map (·.lifecycle) == some .quarantined &&
          (w.db.runs.get? 1).map (·.status) == some .failed) = true := by decide +kernel
  have hmeets : Meets (step oneWorktree) (fun w a => compensates oneWorktree w a = true)
      (.init drafted) ([Action.provision] ++ execs 5 6 ++ [Action.failure] ++ execs 5 5) := by
    decide +kernel
  obtain ⟨w, hrun, h⟩ := (Option.any_eq_true _ _).mp hdemo
  simp only [Bool.and_eq_true, beq_iff_eq] at h
  exact ⟨w, hrun, h.1, h.2, failed_provision_clean hrun hmeets⟩

def Returned.failedMoved (r : Returned) : Bool := r.moved && r.result.toOption.isNone

/-- The user cancels the Run when its worktree is leased. The transition to `Ready` fails, and the
grant stays. -/
theorem cancelled_provision_keeps_grant :
    ¬ ∀ (spec : ProvisionSpec) (db : Db) (actions : List Action) (w : World),
      run (step spec) (.init db) actions = some w →
        ∀ r error, w.returned = some r → r.moved = true → r.result = .error error →
          Clean w.db spec.runId := by
  have hdemo : ((run (step oneWorktree) (.init drafted) ([Action.provision] ++ execs 5 7 ++
      [Action.transition 1 .cancelled "no longer needed"] ++ execs 5 1)).any fun w =>
        w.returned.any Returned.failedMoved &&
          w.db.runWorktreeGrants.get? (1, 5) == some .write) = true := by decide +kernel
  obtain ⟨w, hrun, h⟩ := (Option.any_eq_true _ _).mp hdemo
  simp only [Bool.and_eq_true, beq_iff_eq, Option.any_eq_true] at h
  obtain ⟨⟨r, hr, hfailed⟩, hgrant⟩ := h
  simp only [Returned.failedMoved, Bool.and_eq_true] at hfailed
  intro hall
  cases hresult : r.result with
  | ok => simp [hresult, Except.toOption] at hfailed
  | error error =>
    have hclean := hall oneWorktree drafted _ w hrun r error hr hfailed.1 hresult
    exact absurd (hclean.2 5) (by rw [show oneWorktree.runId = 1 from rfl, hgrant]; simp)

end Vingilot.Coordinator.Saga
