import Vingilot.Coordinator.Interrupted

/-!
# Sweeps beside other transitions (`coordinator/src/reconcile.rs`)

`pause_once` reads the status of a Run and then asks for the transition to `Paused`. In between the
Run may move. Of the errors that the transition can then give, only the one from `Paused` is let
pass, and every other one ends the sweep.
-/

namespace Vingilot.Coordinator.Tolerance

open Machine Reconcile

/-! ## What a sweep gets done -/

inductive Done where
  /-- The `UPDATE` of the binding has run. -/
  | quarantined (bindingId : Uuid)
  /-- The Run was found not running, or paused. -/
  | halted (reason : String) (runId : Uuid)

def runStatus (db : Db) (runId : Uuid) : Option RunStatus := (db.runs.get? runId).map (·.status)

def pausable (db : Db) (runId : Uuid) : Bool :=
  runStatus db runId = some .running || runStatus db runId = some .paused

def does (db : Db) (s : Sweep) : List Done :=
  match s.stage with
  | .next (.leases ((bindingId, _) :: _)) => [.quarantined bindingId]
  | .readStatus runId todo => if isRunning db runId then [] else [.halted todo.reason runId]
  | .pause runId todo => if pausable db runId then [.halted todo.reason runId] else []
  | _ => []

def result (db : Db) (now : Int) (s : Sweep) : Except RunError SweepReport :=
  match s.stage with
  | .pause runId todo => (Run.transition db runId .paused todo.reason now).map fun _ => s.report
  | _ => .ok s.report

structure Watched where
  sweep : Sweep
  leases : List ExpiredLeaseRow
  runs : List Uuid
  log : List Done

def Watched.start : Watched := ⟨.start, [], [], []⟩

def Watched.noted (db : Db) (now : Int) (v : Watched) : Watched :=
  { v with
    leases := if v.sweep.stage = .selectExpired then expiredLeases db now else v.leases
    runs := if v.sweep.stage = .selectExhausted then exhaustedRuns db now else v.runs
    log := v.log ++ does db v.sweep }

/-! ## Runs -/

structure World where
  db : Db
  clock : Int
  sweeps : Table Nat Watched
  started : Nat
  returned : List (Watched × Except RunError SweepReport)

def World.init (db : Db) : World := ⟨db, 0, ∅, 0, []⟩

def step (w : World) : Action → Option World
  | .tick micros => some { w with clock := w.clock + micros }
  | .call c => some { w with db := c.apply w.db }
  | .sweep => some { w with sweeps := w.sweeps.set w.started .start, started := w.started + 1 }
  | .advance i => do
    let v ← w.sweeps.get? i
    let v' := v.noted w.db w.clock
    match v.sweep.advance w.db w.clock with
    | (db, some s) => some { w with db, sweeps := w.sweeps.set i { v' with sweep := s } }
    | (db, none) =>
      some { w with
        db
        sweeps := w.sweeps.remove i
        returned := w.returned ++ [(v', result w.db w.clock v.sweep)] }
  | .stop i => some { w with sweeps := w.sweeps.remove i }

def Pausable (w : World) : Action → Prop
  | .advance i => ∀ v ∈ w.sweeps.get? i, ∀ runId todo, v.sweep.stage = .pause runId todo →
      pausable w.db runId = true
  | _ => True

structure Processed (v : Watched) : Prop where
  quarantined : ∀ x ∈ v.leases, .quarantined x.1 ∈ v.log
  lost : ∀ x ∈ v.leases, .halted "lease lost" x.2 ∈ v.log
  exhausted : ∀ r ∈ v.runs, .halted "wall clock budget exhausted" r ∈ v.log

/-- No sweep has returned an error, and each one that has returned has handled all its rows. -/
def Tolerant (w : World) : Prop :=
  ∀ x ∈ w.returned, (∃ report, x.2 = .ok report) ∧ Processed x.1

/-! ## One statement of a sweep -/

variable {runId : Uuid}

theorem transition_of_pausable {db : Db} (h : pausable db runId = true) (reason : String)
    (now : Int) : (∃ db', Run.transition db runId .paused reason now = .ok db') ∨
      Run.transition db runId .paused reason now = .error (.illegalTransition .paused .paused) := by
  unfold pausable runStatus at h
  unfold Run.transition
  cases hrow : db.runs.get? runId with
  | none => simp [hrow] at h
  | some row =>
    simp only [hrow, Option.map_some, Option.some.injEq, Bool.or_eq_true, decide_eq_true_eq] at h
    rcases h with hstatus | hstatus
    · simp [hstatus, RunStatus.canTransitionTo]
    · simp [hstatus, RunStatus.canTransitionTo]

theorem transition_of_not_pausable {db : Db} (h : pausable db runId = false) (reason : String)
    (now : Int) : ∃ e, Run.transition db runId .paused reason now = .error e ∧
      ∀ toStatus, e ≠ .illegalTransition .paused toStatus := by
  unfold pausable runStatus at h
  unfold Run.transition
  cases hrow : db.runs.get? runId with
  | none => exact ⟨_, rfl, fun _ h => (by cases h)⟩
  | some row =>
    simp only [hrow, Option.map_some, Option.some.injEq, Bool.or_eq_false_iff,
      decide_eq_false_iff_not] at h
    have hillegal : row.status.canTransitionTo .paused = false := by
      cases hstatus : row.status with
      | running => exact absurd hstatus h.1
      | _ => rfl
    refine ⟨_, if_neg (by simp [hillegal]), fun toStatus heq => ?_⟩
    injection heq with hstatus
    exact h.2 hstatus

inductive Moves (db : Db) (now : Int) (s : Sweep) : Option Sweep → Prop where
  | selectExpired (s' : Sweep) (hstage : s.stage = .selectExpired)
      (hnext : s'.stage = .next (.leases (expiredLeases db now))) (hseen : s'.alreadyPaused = []) :
      Moves db now s (some s')
  | quarantine (s' : Sweep) (b runId : Uuid) (rows : List ExpiredLeaseRow)
      (hstage : s.stage = .next (.leases ((b, runId) :: rows)))
      (hnext : Visits s s' runId (.leases rows)) : Moves db now s (some s')
  | turn (s' : Sweep) (hstage : s.stage = .next (.leases []))
      (hnext : s'.stage = .selectExhausted) : Moves db now s (some s')
  | selectExhausted (s' : Sweep) (hstage : s.stage = .selectExhausted)
      (hnext : s'.stage = .next (.wall (exhaustedRuns db now))) (hseen : s'.alreadyPaused = []) :
      Moves db now s (some s')
  | visit (s' : Sweep) (runId : Uuid) (runs : List Uuid)
      (hstage : s.stage = .next (.wall (runId :: runs))) (hnext : Visits s s' runId (.wall runs)) :
      Moves db now s (some s')
  | found (s' : Sweep) (runId : Uuid) (todo : Todo) (hstage : s.stage = .readStatus runId todo)
      (hrunning : isRunning db runId = true) (hnext : s'.stage = .pause runId todo)
      (hseen : s'.alreadyPaused = s.alreadyPaused) : Moves db now s (some s')
  | halted (s' : Sweep) (runId : Uuid) (todo : Todo)
      (hstage : (s.stage = .readStatus runId todo ∧ isRunning db runId = false) ∨
        (s.stage = .pause runId todo ∧ pausable db runId = true))
      (hnext : s'.stage = .next todo) (hseen : s'.alreadyPaused = s.alreadyPaused) :
      Moves db now s (some s')
  | done (hstage : s.stage = .next (.wall [])) (hresult : result db now s = .ok s.report) :
      Moves db now s none
  | failed (runId : Uuid) (todo : Todo) (hstage : s.stage = .pause runId todo)
      (hpausable : pausable db runId = false) (hresult : ∃ e, result db now s = .error e) :
      Moves db now s none

theorem moves (db : Db) (now : Int) (s : Sweep) : Moves db now s (s.advance db now).2 := by
  unfold Sweep.advance
  split
  · rename_i hstage
    exact .selectExpired _ hstage rfl rfl
  · rename_i hstage
    exact .turn _ hstage rfl
  · rename_i hstage
    exact .quarantine _ _ _ _ hstage (visits_pauseOnce ..)
  · rename_i hstage
    exact .selectExhausted _ hstage rfl rfl
  · rename_i hstage
    exact .done hstage (by simp [result, hstage])
  · rename_i hstage
    exact .visit _ _ _ hstage (visits_pauseOnce ..)
  · rename_i runId todo hstage
    cases hrunning : isRunning db runId with
    | true => exact .found _ runId todo hstage hrunning (by simp) rfl
    | false => exact .halted _ runId todo (.inl ⟨hstage, hrunning⟩) (by simp) rfl
  · rename_i runId todo hstage
    cases hpausable : pausable db runId with
    | true =>
      rcases transition_of_pausable hpausable todo.reason now with ⟨db', hok⟩ | hraced
      · rw [hok]
        exact .halted _ runId todo (.inr ⟨hstage, hpausable⟩) rfl rfl
      · rw [hraced]
        exact .halted _ runId todo (.inr ⟨hstage, hpausable⟩) rfl rfl
    | false =>
      obtain ⟨e, herror, hother⟩ := transition_of_not_pausable hpausable todo.reason now
      have hresult : ∃ e, result db now s = .error e := ⟨e, by simp [result, hstage, herror, Except.map]⟩
      rw [herror]
      split
      · rename_i hok
        cases hok
      · rename_i hraced
        cases hraced
        exact absurd rfl (hother _)
      · exact .failed runId todo hstage hpausable hresult

/-! ## How far a sweep has come -/

def rowsLeft : Stage → List ExpiredLeaseRow
  | .next (.leases rows) => rows
  | .readStatus _ (.leases rows) => rows
  | .pause _ (.leases rows) => rows
  | _ => []

def runsLeft : Stage → List Uuid
  | .next (.wall runs) => runs
  | .readStatus runId (.wall runs) => runId :: runs
  | .pause runId (.wall runs) => runId :: runs
  | _ => []

structure Progress (v : Watched) : Prop where
  quarantined : ∀ x ∈ v.leases, x ∈ rowsLeft v.sweep.stage ∨ .quarantined x.1 ∈ v.log
  lost : ∀ x ∈ v.leases, x.2 ∈ v.sweep.stage.leaseRuns ∨ .halted "lease lost" x.2 ∈ v.log
  exhausted : ∀ r ∈ v.runs,
    r ∈ runsLeft v.sweep.stage ∨ .halted "wall clock budget exhausted" r ∈ v.log
  seen : ∀ todo, v.sweep.stage.rest = some todo → ∀ r ∈ v.sweep.alreadyPaused,
    .halted todo.reason r ∈ v.log ∨ v.sweep.stage.awaits = some r

theorem progress_start : Progress .start :=
  ⟨fun _ h => (by cases h), fun _ h => (by cases h), fun _ h => (by cases h),
    fun _ h => (by cases h)⟩

variable {todo : Todo}

theorem visits_left {s s' : Sweep} (h : Visits s s' runId todo) :
    rowsLeft s'.stage = rowsLeft (.next todo) ∧
      (∀ r ∈ (Stage.next todo).leaseRuns, r ∈ s'.stage.leaseRuns) ∧
      ∀ r ∈ runsLeft (.next todo), r ∈ runsLeft s'.stage := by
  rcases h with ⟨-, hnext, -⟩ | ⟨hnext, -⟩
  · rw [hnext]
    exact ⟨rfl, fun _ hr => hr, fun _ hr => hr⟩
  · rw [hnext]
    cases todo with
    | leases rows => exact ⟨rfl, fun _ hr => List.mem_cons_of_mem _ hr, fun _ hr => hr⟩
    | wall runs => exact ⟨rfl, fun _ hr => hr, fun _ hr => List.mem_cons_of_mem _ hr⟩

section Step

variable {db : Db} {now : Int} {v : Watched} {s' : Sweep}

theorem Progress.seen_log (h : Progress v) (hstage : v.sweep.stage = .next todo) :
    ∀ r ∈ v.sweep.alreadyPaused, .halted todo.reason r ∈ v.log := by
  intro r hr
  rcases h.seen todo (by rw [hstage]; rfl) r hr with hlog | hawaits
  · exact hlog
  · rw [hstage] at hawaits
    cases hawaits

theorem Progress.visited (h : Progress v) {t : Todo} (hstage : v.sweep.stage = .next t)
    (hreason : t.reason = todo.reason) (hvisits : Visits v.sweep s' runId todo) :
    (s'.stage = .readStatus runId todo ∨ .halted todo.reason runId ∈ v.log) ∧
      ∀ r ∈ s'.alreadyPaused, .halted todo.reason r ∈ v.log ∨ s'.stage.awaits = some r := by
  have hlog := h.seen_log hstage
  rw [hreason] at hlog
  rcases hvisits with ⟨hmem, hnext, hseen⟩ | ⟨hnext, hseen⟩
  · rw [hnext, hseen]
    exact ⟨.inr (hlog runId hmem), fun r hr => .inl (hlog r hr)⟩
  · rw [hnext, hseen]
    refine ⟨.inl rfl, fun r hr => ?_⟩
    rcases List.mem_cons.mp hr with rfl | hr
    · exact .inr rfl
    · exact .inl (hlog r hr)

structure Goes (db : Db) (s s' : Sweep) (log : List Done) : Prop where
  rows : ∀ x ∈ rowsLeft s.stage, x ∈ rowsLeft s'.stage ∨ .quarantined x.1 ∈ log ++ does db s
  lost : ∀ r ∈ s.stage.leaseRuns, r ∈ s'.stage.leaseRuns ∨ .halted "lease lost" r ∈ log ++ does db s
  exhausted : ∀ r ∈ runsLeft s.stage,
    r ∈ runsLeft s'.stage ∨ .halted "wall clock budget exhausted" r ∈ log ++ does db s
  seen : ∀ todo, s'.stage.rest = some todo → ∀ r ∈ s'.alreadyPaused,
    .halted todo.reason r ∈ log ++ does db s ∨ s'.stage.awaits = some r

theorem Progress.goes (h : Progress v) (hmoves : Moves db now v.sweep (some s')) :
    Goes db v.sweep s' v.log := by
  have hkept : ∀ d ∈ v.log, d ∈ v.log ++ does db v.sweep := fun d hd => List.mem_append_left _ hd
  cases hmoves with
  | selectExpired _ hstage hnext hseen =>
    refine ⟨?_, ?_, ?_, ?_⟩
    · rw [hstage]; exact fun _ h => (by cases h)
    · rw [hstage]; exact fun _ h => (by cases h)
    · rw [hstage]; exact fun _ h => (by cases h)
    · rw [hseen]; exact fun _ _ _ h => (by cases h)
  | quarantine _ b runId rows hstage hvisits =>
    obtain ⟨hrows, hruns, -⟩ := visits_left hvisits
    obtain ⟨hfirst, hseen⟩ := h.visited hstage (by rfl) hvisits
    refine ⟨fun x hx => ?_, fun r hr => ?_, fun r hr => ?_, fun todo htodo r hr => ?_⟩
    · rw [hstage] at hx
      rcases List.mem_cons.mp hx with rfl | hx
      · exact .inr (List.mem_append_right _ (by simp [does, hstage]))
      · exact .inl (by rw [hrows]; exact hx)
    · rw [hstage] at hr
      rcases List.mem_cons.mp hr with rfl | hr
      · rcases hfirst with hnext | hlog
        · exact .inl (by rw [hnext]; exact List.mem_cons_self)
        · exact .inr (hkept _ hlog)
      · exact .inl (hruns r hr)
    · rw [hstage] at hr
      cases hr
    · rw [hvisits.rest] at htodo
      cases htodo
      exact (hseen r hr).imp_left (hkept _)
  | turn _ hstage hnext =>
    refine ⟨?_, ?_, ?_, ?_⟩
    · rw [hstage]; exact fun _ h => (by cases h)
    · rw [hstage]; exact fun _ h => (by cases h)
    · rw [hstage]; exact fun _ h => (by cases h)
    · rw [hnext]; exact fun _ h => (by cases h)
  | selectExhausted _ hstage hnext hseen =>
    refine ⟨?_, ?_, ?_, ?_⟩
    · rw [hstage]; exact fun _ h => (by cases h)
    · rw [hstage]; exact fun _ h => (by cases h)
    · rw [hstage]; exact fun _ h => (by cases h)
    · rw [hseen]; exact fun _ _ _ h => (by cases h)
  | visit _ runId runs hstage hvisits =>
    obtain ⟨-, -, hruns⟩ := visits_left hvisits
    obtain ⟨hfirst, hseen⟩ := h.visited hstage (by rfl) hvisits
    refine ⟨fun x hx => ?_, fun r hr => ?_, fun r hr => ?_, fun todo htodo r hr => ?_⟩
    · rw [hstage] at hx
      cases hx
    · rw [hstage] at hr
      cases hr
    · rw [hstage] at hr
      rcases List.mem_cons.mp hr with rfl | hr
      · rcases hfirst with hnext | hlog
        · exact .inl (by rw [hnext]; exact List.mem_cons_self)
        · exact .inr (hkept _ hlog)
      · exact .inl (hruns r hr)
    · rw [hvisits.rest] at htodo
      cases htodo
      exact (hseen r hr).imp_left (hkept _)
  | found _ runId todo hstage hrunning hnext hseen =>
    refine ⟨fun x hx => .inl ?_, fun r hr => .inl ?_, fun r hr => .inl ?_, fun todo' htodo r hr => ?_⟩
    · rw [hstage] at hx
      rw [hnext]
      cases todo <;> exact hx
    · rw [hstage] at hr
      rw [hnext]
      cases todo <;> exact hr
    · rw [hstage] at hr
      rw [hnext]
      cases todo <;> exact hr
    · rw [hnext] at htodo ⊢
      rw [hseen] at hr
      have hold := h.seen todo' (by rw [hstage]; exact htodo) r hr
      rw [hstage] at hold
      exact hold.imp_left (hkept _)
  | halted _ runId todo hstage hnext hseen =>
    have hlog : .halted todo.reason runId ∈ v.log ++ does db v.sweep := by
      refine List.mem_append_right _ ?_
      rcases hstage with ⟨hstage, hrunning⟩ | ⟨hstage, hpausable⟩
      · simp [does, hstage, hrunning]
      · simp [does, hstage, hpausable]
    have hawaits : v.sweep.stage.awaits = some runId ∧ v.sweep.stage.rest = some todo := by
      rcases hstage with ⟨hstage, -⟩ | ⟨hstage, -⟩
      · rw [hstage]; exact ⟨rfl, rfl⟩
      · rw [hstage]; exact ⟨rfl, rfl⟩
    have hleft : rowsLeft v.sweep.stage = rowsLeft (.readStatus runId todo) ∧
        v.sweep.stage.leaseRuns = (Stage.readStatus runId todo).leaseRuns ∧
        runsLeft v.sweep.stage = runsLeft (.readStatus runId todo) := by
      rcases hstage with ⟨hstage, -⟩ | ⟨hstage, -⟩
      · rw [hstage]; exact ⟨rfl, rfl, rfl⟩
      · rw [hstage]; cases todo <;> exact ⟨rfl, rfl, rfl⟩
    refine ⟨fun x hx => .inl ?_, fun r hr => ?_, fun r hr => ?_, fun todo' htodo r hr => .inl ?_⟩
    · rw [hleft.1] at hx
      rw [hnext]
      cases todo <;> exact hx
    · rw [hleft.2.1] at hr
      rw [hnext]
      cases todo with
      | leases rows =>
        rcases List.mem_cons.mp hr with rfl | hr
        · exact .inr hlog
        · exact .inl hr
      | wall runs => cases hr
    · rw [hleft.2.2] at hr
      rw [hnext]
      cases todo with
      | leases rows => cases hr
      | wall runs =>
        rcases List.mem_cons.mp hr with rfl | hr
        · exact .inr hlog
        · exact .inl hr
    · rw [hnext] at htodo
      cases htodo
      rw [hseen] at hr
      rcases h.seen todo hawaits.2 r hr with hold | hsame
      · exact hkept _ hold
      · rw [hawaits.1] at hsame
        cases hsame
        exact hlog

theorem Moves.selected {s : Sweep} (h : Moves db now s (some s')) :
    (s.stage = .selectExpired → s'.stage = .next (.leases (expiredLeases db now))) ∧
      (s.stage = .selectExhausted → s'.stage = .next (.wall (exhaustedRuns db now))) := by
  cases h with
  | selectExpired _ hstage hnext => exact ⟨fun _ => hnext, fun h => (by rw [hstage] at h; cases h)⟩
  | selectExhausted _ hstage hnext => exact ⟨fun h => (by rw [hstage] at h; cases h), fun _ => hnext⟩
  | quarantine _ _ _ _ hstage => simp [hstage]
  | turn _ hstage => simp [hstage]
  | visit _ _ _ hstage => simp [hstage]
  | found _ _ _ hstage => simp [hstage]
  | halted _ _ _ hstage =>
    rcases hstage with ⟨hstage, -⟩ | ⟨hstage, -⟩
    · simp [hstage]
    · simp [hstage]

theorem Progress.step (h : Progress v) (hmoves : Moves db now v.sweep (some s')) :
    Progress { v.noted db now with sweep := s' } := by
  have hgoes := h.goes hmoves
  obtain ⟨hexpired, hexhausted⟩ := hmoves.selected
  have hkept : ∀ d ∈ v.log, d ∈ (v.noted db now).log := fun d hd => List.mem_append_left _ hd
  have hleases : ∀ x ∈ (v.noted db now).leases,
      s'.stage = .next (.leases (expiredLeases db now)) ∧ x ∈ expiredLeases db now ∨
        x ∈ v.leases := by
    intro x hx
    unfold Watched.noted at hx
    simp only at hx
    split_ifs at hx with hstage
    · exact .inl ⟨hexpired hstage, hx⟩
    · exact .inr hx
  have hruns : ∀ r ∈ (v.noted db now).runs,
      s'.stage = .next (.wall (exhaustedRuns db now)) ∧ r ∈ exhaustedRuns db now ∨
        r ∈ v.runs := by
    intro r hr
    unfold Watched.noted at hr
    simp only at hr
    split_ifs at hr with hstage
    · exact .inl ⟨hexhausted hstage, hr⟩
    · exact .inr hr
  refine ⟨fun x hx => ?_, fun x hx => ?_, fun r hr => ?_, hgoes.seen⟩
  · rcases hleases x hx with ⟨hnext, hnew⟩ | hold
    · exact .inl (by rw [hnext]; exact hnew)
    · exact (h.quarantined x hold).elim (hgoes.rows x) fun hlog => .inr (hkept _ hlog)
  · rcases hleases x hx with ⟨hnext, hnew⟩ | hold
    · exact .inl (by rw [hnext]; exact List.mem_map_of_mem hnew)
    · exact (h.lost x hold).elim (hgoes.lost x.2) fun hlog => .inr (hkept _ hlog)
  · rcases hruns r hr with ⟨hnext, hnew⟩ | hold
    · exact .inl (by rw [hnext]; exact hnew)
    · exact (h.exhausted r hold).elim (hgoes.exhausted r) fun hlog => .inr (hkept _ hlog)

theorem Progress.processed (h : Progress v) (hstage : v.sweep.stage = .next (.wall [])) :
    Processed (v.noted db now) := by
  have hkept : ∀ d ∈ v.log, d ∈ (v.noted db now).log := fun d hd => List.mem_append_left _ hd
  have hleases : (v.noted db now).leases = v.leases :=
    if_neg (by rw [hstage]; exact fun h => (by cases h))
  have hruns : (v.noted db now).runs = v.runs :=
    if_neg (by rw [hstage]; exact fun h => (by cases h))
  refine ⟨fun x hx => ?_, fun x hx => ?_, fun r hr => ?_⟩
  · rw [hleases] at hx
    have hold := h.quarantined x hx
    rw [hstage] at hold
    exact hkept _ (hold.resolve_left List.not_mem_nil)
  · rw [hleases] at hx
    have hold := h.lost x hx
    rw [hstage] at hold
    exact hkept _ (hold.resolve_left List.not_mem_nil)
  · rw [hruns] at hr
    have hold := h.exhausted r hr
    rw [hstage] at hold
    exact hkept _ (hold.resolve_left List.not_mem_nil)

end Step

/-! ## Runs of the coordinator -/

def Watching (w : World) : Prop := ∀ i v, w.sweeps.get? i = some v → Progress v

theorem watching_step {w w' : World} {a : Action} (h : Watching w) (hstep : step w a = some w') :
    Watching w' ∧ ((w'.returned = w.returned ∧ Pausable w a) ∨
      (∃ v report, w'.returned = w.returned ++ [(v, Except.ok report)] ∧ Processed v ∧ Pausable w a) ∨
      (∃ v e, w'.returned = w.returned ++ [(v, Except.error e)] ∧ ¬ Pausable w a)) := by
  cases a with
  | tick micros => cases hstep; exact ⟨h, .inl ⟨rfl, trivial⟩⟩
  | call c => cases hstep; exact ⟨h, .inl ⟨rfl, trivial⟩⟩
  | sweep =>
    cases hstep
    refine ⟨fun i v hv => ?_, .inl ⟨rfl, trivial⟩⟩
    rw [Table.get?_set] at hv
    split_ifs at hv
    · cases hv
      exact progress_start
    · exact h i v hv
  | advance i =>
    obtain ⟨v, hv, hstep⟩ := Option.bind_eq_some_iff.mp hstep
    have hprogress := h i v hv
    have hmoves := moves w.db w.clock v.sweep
    have hpausable : Pausable w (.advance i) ↔ ∀ runId todo, v.sweep.stage = .pause runId todo →
        pausable w.db runId = true := by
      unfold Pausable
      simp only [hv, Option.mem_def, Option.some.injEq, forall_eq']
    cases hadvance : v.sweep.advance w.db w.clock with
    | mk db os =>
      rw [hadvance] at hstep hmoves
      cases os with
      | some s' =>
        cases hstep
        refine ⟨fun j u hu => ?_, .inl ⟨rfl, hpausable.mpr ?_⟩⟩
        · rw [Table.get?_set] at hu
          split_ifs at hu
          · cases hu
            exact hprogress.step hmoves
          · exact h j u hu
        · intro runId todo hstage
          cases hmoves with
          | halted _ r t hwhere =>
            rcases hwhere with ⟨hread, -⟩ | ⟨hpause, hok⟩
            · rw [hread] at hstage
              cases hstage
            · rw [hpause] at hstage
              cases hstage
              exact hok
          | selectExpired _ hwhere => rw [hwhere] at hstage; cases hstage
          | selectExhausted _ hwhere => rw [hwhere] at hstage; cases hstage
          | quarantine _ _ _ _ hwhere => rw [hwhere] at hstage; cases hstage
          | turn _ hwhere => rw [hwhere] at hstage; cases hstage
          | visit _ _ _ hwhere => rw [hwhere] at hstage; cases hstage
          | found _ _ _ hwhere => rw [hwhere] at hstage; cases hstage
      | none =>
        cases hstep
        refine ⟨fun j u hu => ?_, .inr ?_⟩
        · rw [Table.get?_remove] at hu
          split_ifs at hu
          exact h j u hu
        · cases hmoves with
          | done hwhere hresult =>
            refine .inl ⟨_, _, by rw [hresult], hprogress.processed hwhere, hpausable.mpr ?_⟩
            intro runId todo hstage
            rw [hwhere] at hstage
            cases hstage
          | failed runId todo hwhere hnot hresult =>
            obtain ⟨e, he⟩ := hresult
            refine .inr ⟨_, e, by rw [he], fun hall => ?_⟩
            rw [hpausable.mp hall runId todo hwhere] at hnot
            cases hnot
  | stop i =>
    cases hstep
    refine ⟨fun j u hu => ?_, .inl ⟨rfl, trivial⟩⟩
    rw [Table.get?_remove] at hu
    split_ifs at hu
    exact h j u hu

theorem tolerant_step_iff {w w' : World} {a : Action} (h : Watching w)
    (hstep : step w a = some w') : Tolerant w' ↔ Tolerant w ∧ Pausable w a := by
  unfold Tolerant
  rcases (watching_step h hstep).2 with ⟨hsame, hpausable⟩ | ⟨v, report, hnew, hprocessed, hpausable⟩ |
    ⟨v, e, hnew, hnot⟩
  · rw [hsame]
    exact ⟨fun hall => ⟨hall, hpausable⟩, And.left⟩
  · rw [hnew, List.forall_mem_append, List.forall_mem_singleton]
    exact ⟨fun hall => ⟨hall.1, hpausable⟩, fun hall => ⟨hall.1, ⟨report, rfl⟩, hprocessed⟩⟩
  · rw [hnew, List.forall_mem_append, List.forall_mem_singleton]
    constructor
    · rintro ⟨-, ⟨report, hok⟩, -⟩
      cases hok
    · exact fun hall => absurd hall.2 hnot

/-- The sweeps of a run return no error and handle all that they have selected, exactly when each
Run that a sweep has read as running is running or paused at its pause. -/
theorem sweeps_tolerate_iff {db : Db} {actions : List Action} {w : World}
    (hrun : run step (.init db) actions = some w) :
    Tolerant w ↔ Meets step Pausable (.init db) actions := by
  have hinit : Tolerant (.init db) := fun _ h => (by cases h)
  have hwatching : Watching (.init db) := fun _ _ h => (by cases h)
  refine (run_iff_meets Watching ?_ hwatching hrun).trans (and_iff_right hinit)
  intro s a s' hs hstep
  exact ⟨(watching_step hs hstep).1, tolerant_step_iff hs hstep⟩

instance (w : World) (a : Action) : Decidable (Pausable w a) :=
  match a with
  | .advance i =>
    decidable_of_iff ((w.sweeps.get? i).all (fun v => match v.sweep.stage with
        | .pause runId _ => pausable w.db runId
        | _ => true) = true) (by
      unfold Pausable
      cases hv : w.sweeps.get? i with
      | none => simp [hv]
      | some v =>
        simp only [hv, Option.all_some, Option.mem_def, Option.some.injEq, forall_eq']
        constructor
        · intro hall runId todo hstage
          rw [hstage] at hall
          exact hall
        · intro hall
          split
          · rename_i runId todo hstage
            exact hall runId todo hstage
          · rfl)
  | .tick _ => isTrue trivial
  | .call _ => isTrue trivial
  | .sweep => isTrue trivial
  | .stop _ => isTrue trivial

def selected : List Action := lapsed ++ [Action.advance 0, .advance 0]

/-- Another sweep pauses the Run first. -/
theorem sweeps_tolerate_pause : ∃ w, run step (.init .empty)
    (selected ++ [Action.call (.transition 1 .paused "lease lost" 5), .advance 0, .advance 0,
      .advance 0, .advance 0]) = some w ∧ w.returned.length = 1 ∧ Tolerant w := by
  have hdemo : ((run step (.init .empty) (selected ++
      [Action.call (.transition 1 .paused "lease lost" 5), .advance 0, .advance 0, .advance 0,
        .advance 0])).any fun w => w.returned.length == 1) = true := by decide +kernel
  obtain ⟨w, hrun, h⟩ := (Option.any_eq_true _ _).mp hdemo
  exact ⟨w, hrun, eq_of_beq h, (sweeps_tolerate_iff hrun).mpr (by decide +kernel)⟩

/-- The executor reports that its command has ended, between the status and the pause. -/
theorem verifying_run_ends_sweep :
    ¬ ∀ (db : Db) (actions : List Action) (w : World), run step (.init db) actions = some w →
      ∀ x ∈ w.returned, ∃ report, x.2 = .ok report := by
  have hdemo : ((run step (.init .empty)
      (selected ++
        [Action.call (.transition 1 .verifying "command exit 0" 5), .advance 0])).any fun w =>
        w.returned.map Prod.snd == [.error (.illegalTransition .verifying .paused)]) = true := by
    decide +kernel
  obtain ⟨w, hrun, h⟩ := (Option.any_eq_true _ _).mp hdemo
  intro hall
  have hmem : Except.error (.illegalTransition .verifying .paused) ∈ w.returned.map Prod.snd := by
    rw [eq_of_beq h]
    exact List.mem_singleton_self _
  obtain ⟨x, hx, herror⟩ := List.mem_map.mp hmem
  obtain ⟨report, hok⟩ := hall _ _ w hrun x hx
  rw [hok] at herror
  cases herror

end Vingilot.Coordinator.Tolerance
