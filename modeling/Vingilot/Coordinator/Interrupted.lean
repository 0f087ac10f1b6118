import Mathlib.Data.Finset.Dedup
import Mathlib.Data.Finset.Order
import Mathlib.Data.List.Nodup
import Vingilot.Coordinator.Reconcile

/-!
# Sweeps that stop halfway (`coordinator/src/reconcile.rs`)

The quarantine of a binding and the pause of its Run are two transactions. The next sweep looks for
`ready` bindings, so it does not see a binding whose Run the one before it has left running.
-/

namespace Vingilot.Coordinator.Reconcile

/-! ## Sweeps that are alone -/

def Sweep.take : Db → Option Sweep → List Int → Db × Option Sweep
  | db, s, [] => (db, s)
  | db, none, _ :: _ => (db, none)
  | db, some s, now :: clocks => take (s.advance db now).1 (s.advance db now).2 clocks

def interrupted (db : Db) (clocks : List Int) : Db := (Sweep.take db (some .start) clocks).1

def Complete (db : Db) (clocks : List Int) : Prop := (Sweep.take db (some .start) clocks).2 = none

instance (db : Db) (clocks : List Int) : Decidable (Complete db clocks) :=
  inferInstanceAs (Decidable (_ = none))

/-- A Run that owns a `ready` binding whose lease has run out. -/
def LeaseDue (db : Db) (now : Int) (runId : Uuid) : Prop :=
  runId ∈ (expiredLeases db now).map Prod.snd

def WallDue (db : Db) (now : Int) (runId : Uuid) : Prop := runId ∈ exhaustedRuns db now

instance (db : Db) (now : Int) (runId : Uuid) : Decidable (LeaseDue db now runId) :=
  inferInstanceAs (Decidable (_ ∈ _))

instance (db : Db) (now : Int) (runId : Uuid) : Decidable (WallDue db now runId) :=
  inferInstanceAs (Decidable (_ ∈ _))

def Stage.unpaused : Stage → Option Uuid
  | .readStatus runId (.leases _) => some runId
  | .pause runId (.leases _) => some runId
  | _ => none

/-- The sweep was cut off between a quarantine and the pause that goes with it, and neither another
expired lease nor the wall clock makes a sweep pause the Run. -/
def Strands (db : Db) (clocks : List Int) (restart : Int) : Prop :=
  ∃ s runId, (Sweep.take db (some .start) clocks).2 = some s ∧ s.stage.unpaused = some runId ∧
    isRunning (interrupted db clocks) runId = true ∧ ¬ LeaseDue (interrupted db clocks) restart runId ∧
    ¬ WallDue (interrupted db clocks) restart runId

def Converges (db : Db) (clocks : List Int) (restart : Int) : Prop :=
  ∀ later, (restart :: later).Pairwise (· ≤ ·) → Complete (interrupted db clocks) later →
    ∀ x ∈ expiredLeases db (clocks.head?.getD restart),
      isRunning (interrupted (interrupted db clocks) later) x.2 = false

def PausesAlike (db : Db) (clocks : List Int) (restart : Int) : Prop :=
  ∀ m n, Complete (interrupted db clocks) (.replicate m restart) →
    Complete db (.replicate n restart) → ∀ runId,
      isRunning (interrupted (interrupted db clocks) (.replicate m restart)) runId =
        isRunning (interrupted db (.replicate n restart)) runId

/-! ## What the two `SELECT`s find -/

/-- The binding is `ready`, its lease has run out, and the Run owns it. -/
def ReadyExpired (db : Db) (now : Int) (x : ExpiredLeaseRow) : Prop :=
  ∃ row, db.worktreeBindings.get? x.1 = some row ∧ row.ownerRunId = some x.2 ∧
    row.lifecycle = .ready ∧ leaseExpired row now = true

variable {x : ExpiredLeaseRow}

theorem mem_expiredLeases {db : Db} {now : Int} :
    x ∈ expiredLeases db now ↔ ReadyExpired db now x ∧ isRunning db x.2 = true := by
  unfold expiredLeases ReadyExpired
  rw [List.mem_filterMap]
  constructor
  · rintro ⟨⟨id, row⟩, hmem, hrow⟩
    split at hrow
    · rename_i runId howner
      split_ifs at hrow with hcond
      cases hrow
      exact ⟨⟨row, (Table.mem_toList ..).mp hmem, howner, hcond.1, hcond.2.1⟩, hcond.2.2⟩
    · cases hrow
  · rintro ⟨⟨row, hrow, howner, hready, hexpired⟩, hrunning⟩
    exact ⟨(x.1, row), (Table.mem_toList ..).mpr hrow, by simp [howner, hready, hexpired, hrunning]⟩

theorem nodup_expiredLeases (db : Db) (now : Int) : ((expiredLeases db now).map Prod.fst).Nodup := by
  refine List.pairwise_map.mpr ((Table.nodup_keys db.worktreeBindings).filterMap _ ?_)
  intro x x' hne y hy y' hy'
  have hkey : y.1 = x.1 := by
    split at hy
    · split_ifs at hy
      cases hy
      rfl
    · cases hy
  have hkey' : y'.1 = x'.1 := by
    split at hy'
    · split_ifs at hy'
      cases hy'
      rfl
    · cases hy'
  rw [hkey, hkey']
  exact hne

theorem leaseDue_iff {db : Db} {now : Int} {runId : Uuid} :
    LeaseDue db now runId ↔
      (∃ b, ReadyExpired db now (b, runId)) ∧ isRunning db runId = true := by
  unfold LeaseDue
  rw [List.mem_map]
  constructor
  · rintro ⟨x, hx, rfl⟩
    obtain ⟨hready, hrunning⟩ := mem_expiredLeases.mp hx
    exact ⟨⟨x.1, hready⟩, hrunning⟩
  · rintro ⟨⟨b, hready⟩, hrunning⟩
    exact ⟨(b, runId), mem_expiredLeases.mpr ⟨hready, hrunning⟩, rfl⟩

def exhausted (row : Run) (now : Int) : Bool :=
  match row.wallStartedAt, row.wallLimitSecs with
  | some started, some limit => started + secs limit < now
  | _, _ => false

theorem wallDue_iff {db : Db} {now : Int} {runId : Uuid} :
    WallDue db now runId ↔ ∃ row, db.runs.get? runId = some row ∧ row.status = .running ∧
      exhausted row now = true := by
  unfold WallDue exhaustedRuns
  simp only [List.mem_map, List.mem_filter, Prod.exists, exists_and_right, exists_eq_right,
    Table.mem_toList, Bool.and_eq_true, decide_eq_true_eq]
  rfl

theorem isRunning_iff {db : Db} {runId : Uuid} :
    isRunning db runId = true ↔ ∃ row, db.runs.get? runId = some row ∧ row.status = .running := by
  unfold isRunning
  simp [Option.any_eq_true]

variable {now' : Int}

theorem ReadyExpired.later {db : Db} {now : Int} (h : ReadyExpired db now x) (hle : now ≤ now') :
    ReadyExpired db now' x := by
  obtain ⟨row, hrow, howner, hready, hexpired⟩ := h
  obtain ⟨t, ht, hlt⟩ := leaseExpired_iff.mp hexpired
  exact ⟨row, hrow, howner, hready, leaseExpired_iff.mpr ⟨t, ht, by omega⟩⟩

theorem WallDue.later {db : Db} {now : Int} {runId : Uuid} (h : WallDue db now runId)
    (hle : now ≤ now') : WallDue db now' runId := by
  obtain ⟨row, hrow, hstatus, hexhausted⟩ := wallDue_iff.mp h
  refine wallDue_iff.mpr ⟨row, hrow, hstatus, ?_⟩
  unfold exhausted at hexhausted ⊢
  split at hexhausted
  · rw [decide_eq_true_eq] at hexhausted ⊢
    omega
  · cases hexhausted

theorem LeaseDue.later {db : Db} {now : Int} {runId : Uuid} (h : LeaseDue db now runId)
    (hle : now ≤ now') : LeaseDue db now' runId := by
  obtain ⟨⟨b, hready⟩, hrunning⟩ := leaseDue_iff.mp h
  exact leaseDue_iff.mpr ⟨⟨b, hready.later hle⟩, hrunning⟩

/-! ## What the two writes change -/

variable {b : Uuid}

section Writes

variable {db db' : Db} {now : Int} {runId other : Uuid}

theorem isRunning_congr (h : db'.runs.get? runId = db.runs.get? runId) :
    isRunning db' runId = isRunning db runId := by
  unfold isRunning
  rw [h]

theorem wallDue_congr (h : db'.runs.get? runId = db.runs.get? runId) :
    WallDue db' now runId ↔ WallDue db now runId := by
  rw [wallDue_iff, wallDue_iff, h]

theorem quarantineReady_runs (db : Db) (b : Uuid) : (quarantineReady db b).runs = db.runs := by
  rcases quarantineReady_cases db b with hsame | ⟨row, -, -, hset⟩
  · rw [hsame]
  · rw [hset]

theorem isRunning_quarantineReady (db : Db) (b runId : Uuid) :
    isRunning (quarantineReady db b) runId = isRunning db runId :=
  isRunning_congr (by rw [quarantineReady_runs])

theorem wallDue_quarantineReady : WallDue (quarantineReady db b) now runId ↔ WallDue db now runId :=
  wallDue_congr (by rw [quarantineReady_runs])

theorem readyExpired_quarantineReady (hne : x.1 ≠ b) (h : ReadyExpired db now x) :
    ReadyExpired (quarantineReady db b) now x := by
  rcases quarantineReady_cases db b with hsame | ⟨row, -, -, hset⟩
  · rw [hsame]
    exact h
  · obtain ⟨old, hold, hrest⟩ := h
    refine ⟨old, ?_, hrest⟩
    rw [hset, Table.get?_set, if_neg hne]
    exact hold

theorem ReadyExpired.of_quarantineReady (h : ReadyExpired (quarantineReady db b) now x) :
    ReadyExpired db now x := by
  rcases quarantineReady_cases db b with hsame | ⟨row, -, -, hset⟩
  · rwa [hsame] at h
  · obtain ⟨old, hold, howner, hready, hexpired⟩ := h
    rw [hset, Table.get?_set] at hold
    split_ifs at hold with hx
    · cases hold
      cases hready
    · exact ⟨old, hold, howner, hready, hexpired⟩

theorem not_leaseDue_quarantineReady (b : Uuid) (h : ¬ LeaseDue db now runId) :
    ¬ LeaseDue (quarantineReady db b) now runId := by
  intro hdue
  obtain ⟨⟨b', hready⟩, hrunning⟩ := leaseDue_iff.mp hdue
  rw [isRunning_quarantineReady] at hrunning
  exact h (leaseDue_iff.mpr ⟨⟨b', hready.of_quarantineReady⟩, hrunning⟩)

structure Paused (db db' : Db) (runId : Uuid) : Prop where
  bindings : db'.worktreeBindings = db.worktreeBindings
  paused : isRunning db' runId = false
  others : ∀ other, other ≠ runId → db'.runs.get? other = db.runs.get? other

theorem transition_paused (h : isRunning db runId = true) (reason : String) (now : Int) :
    ∃ db', Run.transition db runId .paused reason now = .ok db' ∧ Paused db db' runId := by
  obtain ⟨row, hrow, hstatus⟩ := isRunning_iff.mp h
  unfold Run.transition
  rw [hrow]
  simp only [hstatus, RunStatus.canTransitionTo, if_true]
  refine ⟨_, rfl, rfl, ?_, ?_⟩
  · unfold isRunning
    simp [Run.enter]
  · intro other hne
    rw [Table.get?_set, if_neg hne]

theorem Paused.readyExpired_iff (h : Paused db db' runId) :
    ReadyExpired db' now x ↔ ReadyExpired db now x := by
  unfold ReadyExpired
  rw [h.bindings]

theorem Paused.not_running (h : Paused db db' runId) (hother : isRunning db other = false) :
    isRunning db' other = false := by
  by_cases hsame : other = runId
  · rw [hsame]
    exact h.paused
  · rwa [isRunning_congr (h.others other hsame)]

theorem Paused.not_leaseDue (h : Paused db db' runId) (hother : ¬ LeaseDue db now other) :
    ¬ LeaseDue db' now other := by
  intro hdue
  obtain ⟨⟨b, hready⟩, hrunning⟩ := leaseDue_iff.mp hdue
  refine hother (leaseDue_iff.mpr ⟨⟨b, h.readyExpired_iff.mp hready⟩, ?_⟩)
  by_contra hnot
  rw [h.not_running (by simpa using hnot)] at hrunning
  cases hrunning

end Writes

/-! ## One statement of a sweep that is alone -/

def Stage.awaits : Stage → Option Uuid
  | .readStatus runId _ => some runId
  | .pause runId _ => some runId
  | _ => none

def Stage.rest : Stage → Option Todo
  | .next todo => some todo
  | .readStatus _ todo => some todo
  | .pause _ todo => some todo
  | _ => none

def Todo.Sound (db : Db) (now : Int) : Todo → Prop
  | .leases rows => (rows.map Prod.fst).Nodup ∧ ∀ x ∈ rows, ReadyExpired db now x
  | .wall runs => ∀ r ∈ runs, isRunning db r = true → WallDue db now r

structure Alone (db : Db) (now : Int) (s : Sweep) : Prop where
  seen : ∀ r ∈ s.alreadyPaused, isRunning db r = false ∨ s.stage.awaits = some r
  pausing : ∀ r todo, s.stage = .pause r todo → isRunning db r = true
  sound : ∀ todo, s.stage.rest = some todo → todo.Sound db now
  awaiting : ∀ r runs, s.stage.awaits = some r → s.stage.rest = some (.wall runs) →
    isRunning db r = true → WallDue db now r

def Todo.Due (db : Db) (now : Int) (runId : Uuid) : Todo → Prop
  | .leases rows => runId ∈ rows.map Prod.snd ∨ WallDue db now runId
  | .wall runs => runId ∈ runs

def Stage.Due (db : Db) (now : Int) (runId : Uuid) : Stage → Prop
  | .selectExpired => LeaseDue db now runId ∨ WallDue db now runId
  | .selectExhausted => WallDue db now runId
  | .next todo => todo.Due db now runId
  | .readStatus r todo => runId = r ∨ todo.Due db now runId
  | .pause r todo => runId = r ∨ todo.Due db now runId

theorem Todo.Sound.later {db : Db} {now : Int} {todo : Todo} (h : todo.Sound db now)
    (hle : now ≤ now') : todo.Sound db now' := by
  cases todo with
  | leases rows => exact ⟨h.1, fun x hx => (h.2 x hx).later hle⟩
  | wall runs => exact fun r hr hrunning => (h r hr hrunning).later hle

theorem Todo.Sound.paused {db db' : Db} {now : Int} {todo : Todo} (h : todo.Sound db now)
    {runId : Uuid} (hpaused : Paused db db' runId) : todo.Sound db' now := by
  cases todo with
  | leases rows => exact ⟨h.1, fun x hx => hpaused.readyExpired_iff.mpr (h.2 x hx)⟩
  | wall runs =>
    intro r hr hrunning
    have hne : r ≠ runId := by
      rintro rfl
      rw [hpaused.paused] at hrunning
      cases hrunning
    rw [isRunning_congr (hpaused.others r hne)] at hrunning
    exact (wallDue_congr (hpaused.others r hne)).mpr (h r hr hrunning)

theorem Alone.later {db : Db} {now : Int} {s : Sweep} (h : Alone db now s) (hle : now ≤ now') :
    Alone db now' s where
  seen := h.seen
  pausing := h.pausing
  sound todo htodo := (h.sound todo htodo).later hle
  awaiting r runs hawaits hrest hrunning := (h.awaiting r runs hawaits hrest hrunning).later hle

theorem Todo.Due.later {db : Db} {now : Int} {runId : Uuid} {todo : Todo}
    (h : todo.Due db now runId) (hle : now ≤ now') : todo.Due db now' runId := by
  cases todo with
  | leases rows => exact h.imp_right fun hdue => hdue.later hle
  | wall runs => exact h

theorem Todo.Due.imp_wall {db db' : Db} {now : Int} {runId : Uuid} {todo : Todo}
    (h : todo.Due db now runId) (hwall : WallDue db now runId → WallDue db' now runId) :
    todo.Due db' now runId := by
  cases todo with
  | leases rows => exact h.imp_right hwall
  | wall runs => exact h

theorem Stage.Due.later {db : Db} {now : Int} {runId : Uuid} {stage : Stage}
    (h : stage.Due db now runId) (hle : now ≤ now') : stage.Due db now' runId := by
  cases stage with
  | selectExpired => exact h.imp (fun hdue => hdue.later hle) fun hdue => hdue.later hle
  | selectExhausted => exact WallDue.later h hle
  | next todo => exact Todo.Due.later h hle
  | readStatus r todo => exact h.imp_right fun hdue => hdue.later hle
  | pause r todo => exact h.imp_right fun hdue => hdue.later hle

theorem alone_start (db : Db) (now : Int) : Alone db now .start where
  seen := fun _ h => by cases h
  pausing := fun _ _ h => by cases h
  sound := fun _ h => by cases h
  awaiting := fun _ _ h => by cases h

/-- What `pause_once` does first. -/
def Visits (s s' : Sweep) (runId : Uuid) (todo : Todo) : Prop :=
  (runId ∈ s.alreadyPaused ∧ s'.stage = .next todo ∧ s'.alreadyPaused = s.alreadyPaused) ∨
    (s'.stage = .readStatus runId todo ∧ s'.alreadyPaused = runId :: s.alreadyPaused)

theorem visits_pauseOnce (s : Sweep) (report : SweepReport) (runId : Uuid) (todo : Todo) :
    Visits s (Sweep.pauseOnce { s with report } runId todo) runId todo := by
  unfold Sweep.pauseOnce
  split_ifs with hseen
  · exact .inl ⟨hseen, rfl, rfl⟩
  · exact .inr ⟨rfl, rfl⟩

inductive Statement (db : Db) (now : Int) (s : Sweep) : Db → Option Sweep → Prop where
  | selectExpired (s' : Sweep) (hstage : s.stage = .selectExpired)
      (hnext : s'.stage = .next (.leases (expiredLeases db now))) (hseen : s'.alreadyPaused = []) :
      Statement db now s db (some s')
  | quarantine (s' : Sweep) (b runId : Uuid) (rows : List ExpiredLeaseRow)
      (hstage : s.stage = .next (.leases ((b, runId) :: rows)))
      (hnext : Visits s s' runId (.leases rows)) :
      Statement db now s (quarantineReady db b) (some s')
  | turn (s' : Sweep) (hstage : s.stage = .next (.leases []))
      (hnext : s'.stage = .selectExhausted) (hseen : s'.alreadyPaused = s.alreadyPaused) :
      Statement db now s db (some s')
  | selectExhausted (s' : Sweep) (hstage : s.stage = .selectExhausted)
      (hnext : s'.stage = .next (.wall (exhaustedRuns db now))) (hseen : s'.alreadyPaused = []) :
      Statement db now s db (some s')
  | visit (s' : Sweep) (runId : Uuid) (runs : List Uuid)
      (hstage : s.stage = .next (.wall (runId :: runs))) (hnext : Visits s s' runId (.wall runs)) :
      Statement db now s db (some s')
  | found (s' : Sweep) (runId : Uuid) (todo : Todo) (hstage : s.stage = .readStatus runId todo)
      (hrunning : isRunning db runId = true) (hnext : s'.stage = .pause runId todo)
      (hseen : s'.alreadyPaused = s.alreadyPaused) : Statement db now s db (some s')
  | skipped (s' : Sweep) (runId : Uuid) (todo : Todo) (hstage : s.stage = .readStatus runId todo)
      (hrunning : isRunning db runId = false) (hnext : s'.stage = .next todo)
      (hseen : s'.alreadyPaused = s.alreadyPaused) : Statement db now s db (some s')
  | paused (db' : Db) (s' : Sweep) (runId : Uuid) (todo : Todo)
      (hstage : s.stage = .pause runId todo) (hpaused : Paused db db' runId)
      (hnext : s'.stage = .next todo) (hseen : s'.alreadyPaused = s.alreadyPaused) :
      Statement db now s db' (some s')
  | done (hstage : s.stage = .next (.wall [])) : Statement db now s db none

theorem Alone.statement {db : Db} {now : Int} {s : Sweep} (h : Alone db now s) :
    Statement db now s (s.advance db now).1 (s.advance db now).2 := by
  unfold Sweep.advance
  split
  · rename_i hstage
    exact .selectExpired _ hstage rfl rfl
  · rename_i hstage
    exact .turn _ hstage rfl rfl
  · rename_i hstage
    exact .quarantine _ _ _ _ hstage (visits_pauseOnce ..)
  · rename_i hstage
    exact .selectExhausted _ hstage rfl rfl
  · rename_i hstage
    exact .done hstage
  · rename_i hstage
    exact .visit _ _ _ hstage (visits_pauseOnce ..)
  · rename_i runId todo hstage
    cases hrunning : isRunning db runId with
    | true => exact .found _ runId todo hstage hrunning (by simp) rfl
    | false => exact .skipped _ runId todo hstage hrunning (by simp) rfl
  · rename_i runId todo hstage
    obtain ⟨db', hok, hpaused⟩ :=
      transition_paused (h.pausing runId todo hstage) todo.reason now
    rw [hok]
    exact .paused db' _ runId todo hstage hpaused rfl rfl

variable {s' : Sweep}

theorem Visits.rest {s : Sweep} {runId : Uuid} {todo : Todo} (h : Visits s s' runId todo) :
    s'.stage.rest = some todo := by
  rcases h with ⟨-, hnext, -⟩ | ⟨hnext, -⟩
  · rw [hnext]; rfl
  · rw [hnext]; rfl

theorem Visits.seen {db db' : Db} {now : Int} {s : Sweep} {runId : Uuid} {todo t : Todo}
    (h : Visits s s' runId todo) (halone : Alone db now s) (hstage : s.stage = .next t)
    (hsame : ∀ r, isRunning db' r = isRunning db r) :
    (∀ r ∈ s'.alreadyPaused, isRunning db' r = false ∨ s'.stage.awaits = some r) ∧
      ∀ r todo, s'.stage ≠ .pause r todo := by
  have hold : ∀ r ∈ s.alreadyPaused, isRunning db' r = false := by
    intro r hr
    rcases halone.seen r hr with hnot | hawaits
    · rw [hsame]
      exact hnot
    · rw [hstage] at hawaits
      cases hawaits
  rcases h with ⟨-, hnext, hseen⟩ | ⟨hnext, hseen⟩
  · rw [hnext, hseen]
    exact ⟨fun r hr => .inl (hold r hr), fun _ _ h => by cases h⟩
  · rw [hnext, hseen]
    refine ⟨fun r hr => ?_, fun _ _ h => by cases h⟩
    rcases List.mem_cons.mp hr with rfl | hr
    · exact .inr rfl
    · exact .inl (hold r hr)

theorem Alone.step {db : Db} {now : Int} {s : Sweep} (h : Alone db now s)
    (hnext : (s.advance db now).2 = some s') : Alone (s.advance db now).1 now s' := by
  have hstatement := h.statement
  rw [hnext] at hstatement
  generalize (s.advance db now).1 = db' at hstatement ⊢
  cases hstatement with
  | selectExpired _ hstage hnext hseen =>
    refine ⟨fun r hr => ?_, fun r todo hr => ?_, fun todo htodo => ?_, fun r runs hr => ?_⟩
    · rw [hseen] at hr
      cases hr
    · rw [hnext] at hr
      cases hr
    · rw [hnext] at htodo
      cases htodo
      refine ⟨nodup_expiredLeases db now, fun x hx => (mem_expiredLeases.mp hx).1⟩
    · rw [hnext] at hr
      cases hr
  | quarantine _ b runId rows hstage hvisits =>
    obtain ⟨hseen, hpause⟩ := hvisits.seen h hstage (isRunning_quarantineReady db b)
    obtain ⟨hnodup, hready⟩ := h.sound _ (by rw [hstage]; rfl)
    rw [List.map_cons, List.nodup_cons] at hnodup
    refine ⟨hseen, fun r todo hr => absurd hr (hpause r todo), fun todo htodo => ?_, ?_⟩
    · rw [hvisits.rest] at htodo
      cases htodo
      refine ⟨hnodup.2, fun x hx => readyExpired_quarantineReady ?_ ?_⟩
      · intro hsame
        exact hnodup.1 (List.mem_map.mpr ⟨x, hx, hsame⟩)
      · exact hready x (List.mem_cons_of_mem _ hx)
    · intro r runs hr hrest
      rw [hvisits.rest] at hrest
      cases hrest
  | turn _ hstage hnext hseen =>
    refine ⟨fun r hr => ?_, fun r todo hr => ?_, fun todo htodo => ?_, fun r runs hr => ?_⟩
    · rw [hseen] at hr
      rcases h.seen r hr with hnot | hawaits
      · exact .inl hnot
      · rw [hstage] at hawaits
        cases hawaits
    · rw [hnext] at hr
      cases hr
    · rw [hnext] at htodo
      cases htodo
    · rw [hnext] at hr
      cases hr
  | selectExhausted _ hstage hnext hseen =>
    refine ⟨fun r hr => ?_, fun r todo hr => ?_, fun todo htodo => ?_, fun r runs hr => ?_⟩
    · rw [hseen] at hr
      cases hr
    · rw [hnext] at hr
      cases hr
    · rw [hnext] at htodo
      cases htodo
      exact fun r hr _ => hr
    · rw [hnext] at hr
      cases hr
  | visit _ runId runs hstage hvisits =>
    obtain ⟨hseen, hpause⟩ := hvisits.seen h hstage fun _ => rfl
    have hsound := h.sound _ (by rw [hstage]; rfl)
    refine ⟨hseen, fun r todo hr => absurd hr (hpause r todo), fun todo htodo => ?_, ?_⟩
    · rw [hvisits.rest] at htodo
      cases htodo
      exact fun r hr => hsound r (List.mem_cons_of_mem _ hr)
    · intro r runs' hr _ hrunning
      rcases hvisits with ⟨-, hnext, -⟩ | ⟨hnext, -⟩
      · rw [hnext] at hr
        cases hr
      · rw [hnext] at hr
        cases hr
        exact hsound runId List.mem_cons_self hrunning
  | found _ runId todo hstage hrunning hnext hseen =>
    refine ⟨fun r hr => ?_, fun r todo' hr => ?_, fun todo' htodo => ?_, fun r runs hr hrest => ?_⟩
    · rw [hseen] at hr
      have hold := h.seen r hr
      rw [hstage] at hold
      rw [hnext]
      exact hold
    · rw [hnext] at hr
      cases hr
      exact hrunning
    · rw [hnext] at htodo
      exact h.sound todo' (by rw [hstage]; exact htodo)
    · rw [hnext] at hr hrest
      exact h.awaiting r runs (by rw [hstage]; exact hr) (by rw [hstage]; exact hrest)
  | skipped _ runId todo hstage hrunning hnext hseen =>
    refine ⟨fun r hr => ?_, fun r todo' hr => ?_, fun todo' htodo => ?_, fun r runs hr => ?_⟩
    · rw [hseen] at hr
      rcases h.seen r hr with hnot | hawaits
      · exact .inl hnot
      · rw [hstage] at hawaits
        cases hawaits
        exact .inl hrunning
    · rw [hnext] at hr
      cases hr
    · rw [hnext] at htodo
      exact h.sound todo' (by rw [hstage]; exact htodo)
    · rw [hnext] at hr
      cases hr
  | paused db' _ runId todo hstage hpaused hnext hseen =>
    refine ⟨fun r hr => ?_, fun r todo' hr => ?_, fun todo' htodo => ?_, fun r runs hr => ?_⟩
    · rw [hseen] at hr
      rcases h.seen r hr with hnot | hawaits
      · exact .inl (hpaused.not_running hnot)
      · rw [hstage] at hawaits
        cases hawaits
        exact .inl hpaused.paused
    · rw [hnext] at hr
      cases hr
    · rw [hnext] at htodo
      exact (h.sound todo' (by rw [hstage]; exact htodo)).paused hpaused
    · rw [hnext] at hr
      cases hr

theorem Alone.due {db : Db} {now : Int} {s : Sweep} (h : Alone db now s) {runId : Uuid}
    (hdue : isRunning db runId = true → s.stage.Due db now runId)
    (hrunning : isRunning (s.advance db now).1 runId = true) :
    ∃ s', (s.advance db now).2 = some s' ∧ s'.stage.Due (s.advance db now).1 now runId := by
  have hstatement := h.statement
  generalize (s.advance db now).1 = db' at hstatement hrunning ⊢
  generalize (s.advance db now).2 = os at hstatement ⊢
  cases hstatement with
  | selectExpired s' hstage hnext hseen =>
    have hold := hdue hrunning
    rw [hstage] at hold
    exact ⟨s', rfl, by rw [hnext]; exact hold⟩
  | quarantine s' b r rows hstage hvisits =>
    rw [isRunning_quarantineReady] at hrunning
    have hold := hdue hrunning
    rw [hstage] at hold
    refine ⟨s', rfl, ?_⟩
    have hrest : runId = r ∨ Todo.Due (quarantineReady db b) now runId (.leases rows) := by
      rcases hold with hmem | hwall
      · exact (List.mem_cons.mp hmem).imp_right Or.inl
      · exact .inr (.inr (wallDue_quarantineReady.mpr hwall))
    rcases hvisits with ⟨hseen, hnext, -⟩ | ⟨hnext, -⟩
    · rw [hnext]
      refine hrest.resolve_left ?_
      rintro rfl
      rcases h.seen runId hseen with hnot | hawaits
      · rw [hnot] at hrunning
        cases hrunning
      · rw [hstage] at hawaits
        cases hawaits
    · rw [hnext]
      exact hrest
  | turn s' hstage hnext hseen =>
    have hold := hdue hrunning
    rw [hstage] at hold
    refine ⟨s', rfl, ?_⟩
    rw [hnext]
    exact hold.resolve_left List.not_mem_nil
  | selectExhausted s' hstage hnext hseen =>
    have hold := hdue hrunning
    rw [hstage] at hold
    exact ⟨s', rfl, by rw [hnext]; exact hold⟩
  | visit s' r runs hstage hvisits =>
    have hold := hdue hrunning
    rw [hstage] at hold
    refine ⟨s', rfl, ?_⟩
    have hrest : runId = r ∨ runId ∈ runs := List.mem_cons.mp hold
    rcases hvisits with ⟨hseen, hnext, -⟩ | ⟨hnext, -⟩
    · rw [hnext]
      refine hrest.resolve_left ?_
      rintro rfl
      rcases h.seen runId hseen with hnot | hawaits
      · rw [hnot] at hrunning
        cases hrunning
      · rw [hstage] at hawaits
        cases hawaits
    · rw [hnext]
      exact hrest
  | found s' r todo hstage hfound hnext hseen =>
    have hold := hdue hrunning
    rw [hstage] at hold
    exact ⟨s', rfl, by rw [hnext]; exact hold⟩
  | skipped s' r todo hstage hnot hnext hseen =>
    have hold := hdue hrunning
    rw [hstage] at hold
    refine ⟨s', rfl, ?_⟩
    rw [hnext]
    refine hold.resolve_left ?_
    rintro rfl
    rw [hnot] at hrunning
    cases hrunning
  | paused db' s' r todo hstage hpaused hnext hseen =>
    have hne : runId ≠ r := by
      rintro rfl
      rw [hpaused.paused] at hrunning
      cases hrunning
    rw [isRunning_congr (hpaused.others runId hne)] at hrunning
    have hold := hdue hrunning
    rw [hstage] at hold
    refine ⟨s', rfl, ?_⟩
    rw [hnext]
    exact (hold.resolve_left hne).imp_wall (wallDue_congr (hpaused.others runId hne)).mpr
  | done hstage =>
    have hold := hdue hrunning
    rw [hstage] at hold
    cases hold

/-! ## Runs that a sweep passes by -/

/-- The sweep does not come to the Run before `last`. -/
structure PassedBy (db : Db) (last : Int) (runId : Uuid) (s : Sweep) : Prop where
  running : isRunning db runId = true
  lease : ¬ LeaseDue db last runId
  wall : ¬ WallDue db last runId
  stage : ¬ s.stage.Due db last runId

theorem PassedBy.step {db : Db} {now last : Int} {s : Sweep} {runId : Uuid}
    (hpassed : PassedBy db last runId s) (h : Alone db now s) (hle : now ≤ last) :
    isRunning (s.advance db now).1 runId = true ∧ ¬ LeaseDue (s.advance db now).1 last runId ∧
      ¬ WallDue (s.advance db now).1 last runId ∧
      ∀ s', (s.advance db now).2 = some s' → ¬ s'.stage.Due (s.advance db now).1 last runId := by
  have hstatement := h.statement
  obtain ⟨hrunning, hlease, hwall, hdue⟩ := hpassed
  generalize (s.advance db now).1 = db' at hstatement ⊢
  generalize (s.advance db now).2 = os at hstatement ⊢
  cases hstatement with
  | selectExpired s' hstage hnext hseen =>
    refine ⟨hrunning, hlease, hwall, ?_⟩
    rintro _ ⟨⟩
    rw [hnext]
    exact not_or.mpr ⟨fun hdue => hlease (LeaseDue.later hdue hle), hwall⟩
  | quarantine s' b r rows hstage hvisits =>
    refine ⟨by rwa [isRunning_quarantineReady], not_leaseDue_quarantineReady b hlease,
      wallDue_quarantineReady.not.mpr hwall, ?_⟩
    rintro _ ⟨⟩
    rw [hstage] at hdue
    have hrest : ¬ (runId = r ∨ Todo.Due (quarantineReady db b) last runId (.leases rows)) := by
      rintro (rfl | hmem | hwall')
      · exact hdue (.inl List.mem_cons_self)
      · exact hdue (.inl (List.mem_cons_of_mem _ hmem))
      · exact hwall (wallDue_quarantineReady.mp hwall')
    rcases hvisits with ⟨-, hnext, -⟩ | ⟨hnext, -⟩
    · rw [hnext]
      exact fun hnow => hrest (.inr hnow)
    · rw [hnext]
      exact hrest
  | turn s' hstage hnext hseen =>
    refine ⟨hrunning, hlease, hwall, ?_⟩
    rintro _ ⟨⟩
    rw [hnext]
    exact hwall
  | selectExhausted s' hstage hnext hseen =>
    refine ⟨hrunning, hlease, hwall, ?_⟩
    rintro _ ⟨⟩
    rw [hnext]
    exact fun hdue => hwall (WallDue.later hdue hle)
  | visit s' r runs hstage hvisits =>
    refine ⟨hrunning, hlease, hwall, ?_⟩
    rintro _ ⟨⟩
    rw [hstage] at hdue
    have hrest : ¬ (runId = r ∨ runId ∈ runs) := fun hmem => hdue (List.mem_cons.mpr hmem)
    rcases hvisits with ⟨-, hnext, -⟩ | ⟨hnext, -⟩
    · rw [hnext]
      exact fun hnow => hrest (.inr hnow)
    · rw [hnext]
      exact hrest
  | found s' r todo hstage hfound hnext hseen =>
    refine ⟨hrunning, hlease, hwall, ?_⟩
    rintro _ ⟨⟩
    rw [hnext]
    rw [hstage] at hdue
    exact hdue
  | skipped s' r todo hstage hnot hnext hseen =>
    refine ⟨hrunning, hlease, hwall, ?_⟩
    rintro _ ⟨⟩
    rw [hnext]
    rw [hstage] at hdue
    exact fun hnow => hdue (.inr hnow)
  | paused db' s' r todo hstage hpaused hnext hseen =>
    rw [hstage] at hdue
    have hne : runId ≠ r := fun hsame => hdue (.inl hsame)
    have hsame := hpaused.others runId hne
    refine ⟨by rwa [isRunning_congr hsame], hpaused.not_leaseDue hlease,
      (wallDue_congr hsame).not.mpr hwall, ?_⟩
    rintro _ ⟨⟩
    rw [hnext]
    exact fun hnow => hdue (.inr (hnow.imp_wall (wallDue_congr hsame).mp))
  | done hstage => exact ⟨hrunning, hlease, hwall, fun _ h => by cases h⟩

/-! ## Whole sweeps -/

@[simp]
theorem Sweep.take_none (db : Db) (clocks : List Int) : Sweep.take db none clocks = (db, none) := by
  cases clocks <;> rfl

theorem take_due {db : Db} {now : Int} {s : Sweep} (h : Alone db now s) {runId : Uuid}
    (hdue : isRunning db runId = true → s.stage.Due db now runId) {clocks : List Int}
    (hclocks : (now :: clocks).Pairwise (· ≤ ·)) (last : Int) (hlast : ∀ t ∈ clocks, t ≤ last)
    (hnow : now ≤ last)
    (hrunning : isRunning (Sweep.take db (some s) clocks).1 runId = true) :
    ∃ s', (Sweep.take db (some s) clocks).2 = some s' ∧
      Alone (Sweep.take db (some s) clocks).1 last s' ∧
      s'.stage.Due (Sweep.take db (some s) clocks).1 last runId := by
  induction clocks generalizing db now s with
  | nil => exact ⟨s, rfl, h.later hnow, (hdue hrunning).later hnow⟩
  | cons t clocks ih =>
    obtain ⟨hle, hrest⟩ := List.pairwise_cons.mp hclocks
    have ht := hle t List.mem_cons_self
    have hthen : isRunning (s.advance db t).1 runId = true → ∃ s', (s.advance db t).2 = some s' ∧
        s'.stage.Due (s.advance db t).1 t runId :=
      (h.later ht).due fun hr => (hdue hr).later ht
    rw [Sweep.take] at hrunning ⊢
    cases hs' : (s.advance db t).2 with
    | none =>
      rw [hs'] at hrunning hthen
      rw [Sweep.take_none] at hrunning
      obtain ⟨s', hsome, -⟩ := hthen hrunning
      cases hsome
    | some s' =>
      rw [hs'] at hrunning hthen
      refine ih ((h.later ht).step hs') ?_ hrest (fun u hu => hlast u (List.mem_cons_of_mem _ hu))
        (hlast t List.mem_cons_self) hrunning
      intro hr
      obtain ⟨_, hsome, hdue'⟩ := hthen hr
      cases hsome
      exact hdue'

theorem take_passedBy {db : Db} {now last : Int} {s : Sweep} {runId : Uuid}
    (hpassed : PassedBy db last runId s) (h : Alone db now s) {clocks : List Int}
    (hclocks : (now :: clocks).Pairwise (· ≤ ·)) (hlast : ∀ t ∈ clocks, t ≤ last) :
    isRunning (Sweep.take db (some s) clocks).1 runId = true ∧
      ¬ LeaseDue (Sweep.take db (some s) clocks).1 last runId ∧
      ¬ WallDue (Sweep.take db (some s) clocks).1 last runId := by
  induction clocks generalizing db now s with
  | nil => exact ⟨hpassed.running, hpassed.lease, hpassed.wall⟩
  | cons t clocks ih =>
    obtain ⟨hle, hrest⟩ := List.pairwise_cons.mp hclocks
    have halone := h.later (hle t List.mem_cons_self)
    obtain ⟨hrunning, hlease, hwall, hstage⟩ := hpassed.step halone (hlast t List.mem_cons_self)
    rw [Sweep.take]
    cases hs' : (s.advance db t).2 with
    | none =>
      rw [Sweep.take_none]
      exact ⟨hrunning, hlease, hwall⟩
    | some s' =>
      exact ih ⟨hrunning, hlease, hwall, hstage s' hs'⟩ (halone.step hs') hrest
        fun u hu => hlast u (List.mem_cons_of_mem _ hu)

theorem pairwise_replicate (n : Nat) (now : Int) :
    (now :: List.replicate n now).Pairwise (· ≤ ·) := by
  rw [← List.replicate_succ]
  exact List.pairwise_replicate.mpr (.inr (Int.le_refl now))

theorem complete_running_iff {db : Db} {now : Int} {n : Nat}
    (hcomplete : Complete db (.replicate n now)) (runId : Uuid) :
    isRunning (interrupted db (.replicate n now)) runId = true ↔
      isRunning db runId = true ∧ ¬ LeaseDue db now runId ∧ ¬ WallDue db now runId := by
  have hlast : ∀ t ∈ List.replicate n now, t ≤ now := fun t ht => (List.eq_of_mem_replicate ht).le
  by_cases hdue : isRunning db runId = true → LeaseDue db now runId ∨ WallDue db now runId
  · constructor
    · intro hrunning
      obtain ⟨s', hsome, -⟩ := take_due (alone_start db now) hdue (pairwise_replicate n now) now
        hlast (Int.le_refl now) hrunning
      rw [hcomplete] at hsome
      cases hsome
    · rintro ⟨hrunning, hlease, hwall⟩
      exact absurd (hdue hrunning) (not_or.mpr ⟨hlease, hwall⟩)
  · obtain ⟨hrunning, hnot⟩ := Classical.not_imp.mp hdue
    obtain ⟨hlease, hwall⟩ := not_or.mp hnot
    have hpassed : PassedBy db now runId .start := ⟨hrunning, hlease, hwall, hnot⟩
    exact iff_of_true (take_passedBy hpassed (alone_start db now) (pairwise_replicate n now) hlast).1
      ⟨hrunning, hlease, hwall⟩

/-! ## Sweeps return -/

def Returns (db : Db) (now : Int) (s : Sweep) : Prop :=
  ∃ n, (Sweep.take db (some s) (.replicate n now)).2 = none

theorem returns_of_advance {db : Db} {now : Int} {s : Sweep}
    (h : ∀ s', (s.advance db now).2 = some s' → Returns (s.advance db now).1 now s') :
    Returns db now s := by
  cases hs' : (s.advance db now).2 with
  | none => exact ⟨1, by simp [List.replicate, Sweep.take, hs']⟩
  | some s' =>
    obtain ⟨n, hn⟩ := h s' hs'
    refine ⟨n + 1, ?_⟩
    rw [List.replicate_succ, Sweep.take, hs']
    exact hn

section Pass

variable {now : Int} {todo : Todo}
  (hrest : ∀ (db : Db) (s : Sweep), s.stage = .next todo → Returns db now s)
include hrest

theorem returns_pause {db : Db} {s : Sweep} {runId : Uuid} (hs : s.stage = .pause runId todo) :
    Returns db now s := by
  refine returns_of_advance fun s' hs' => ?_
  unfold Sweep.advance at hs' ⊢
  rw [hs] at hs' ⊢
  simp only at hs' ⊢
  split at hs'
  · cases hs'; exact hrest _ _ rfl
  · cases hs'; exact hrest _ _ rfl
  · cases hs'

theorem returns_readStatus {db : Db} {s : Sweep} {runId : Uuid}
    (hs : s.stage = .readStatus runId todo) : Returns db now s := by
  refine returns_of_advance fun s' hs' => ?_
  unfold Sweep.advance at hs' ⊢
  rw [hs] at hs' ⊢
  cases hs'
  cases hrunning : isRunning db runId with
  | true =>
    refine returns_pause hrest (?_ : _ = Stage.pause runId todo)
    simp
  | false => exact hrest _ _ (by simp)

theorem returns_visits {db : Db} {s : Sweep} {runId : Uuid} (h : Visits s s' runId todo) :
    Returns db now s' := by
  rcases h with ⟨-, hnext, -⟩ | ⟨hnext, -⟩
  · exact hrest _ _ hnext
  · exact returns_readStatus hrest hnext

end Pass

theorem returns_wall (now : Int) (runs : List Uuid) :
    ∀ (db : Db) (s : Sweep), s.stage = .next (.wall runs) → Returns db now s := by
  induction runs with
  | nil =>
    intro db s hs
    refine returns_of_advance fun s' hs' => ?_
    unfold Sweep.advance at hs'
    rw [hs] at hs'
    cases hs'
  | cons r runs ih =>
    intro db s hs
    refine returns_of_advance fun s' hs' => ?_
    unfold Sweep.advance at hs' ⊢
    rw [hs] at hs' ⊢
    cases hs'
    exact returns_visits ih (visits_pauseOnce ..)

theorem returns_leases (now : Int) (rows : List ExpiredLeaseRow) :
    ∀ (db : Db) (s : Sweep), s.stage = .next (.leases rows) → Returns db now s := by
  induction rows with
  | nil =>
    intro db s hs
    refine returns_of_advance fun s' hs' => ?_
    unfold Sweep.advance at hs' ⊢
    rw [hs] at hs' ⊢
    cases hs'
    refine returns_of_advance fun s'' hs'' => ?_
    cases hs''
    exact returns_wall now _ _ _ rfl
  | cons x rows ih =>
    intro db s hs
    refine returns_of_advance fun s' hs' => ?_
    unfold Sweep.advance at hs' ⊢
    rw [hs] at hs' ⊢
    cases hs'
    exact returns_visits ih (visits_pauseOnce ..)

theorem exists_complete (db : Db) (now : Int) : ∃ n, Complete db (.replicate n now) := by
  refine returns_of_advance fun s' hs' => ?_
  cases hs'
  exact returns_leases now _ _ _ rfl

/-! ## The sweep that is cut off -/

theorem Alone.due_again {db : Db} {now : Int} {s : Sweep} (h : Alone db now s) {runId : Uuid}
    (hrunning : isRunning db runId = true) (hdue : s.stage.Due db now runId) :
    s.stage.unpaused = some runId ∨ LeaseDue db now runId ∨ WallDue db now runId := by
  have hrest : ∀ todo, s.stage.rest = some todo → todo.Due db now runId →
      LeaseDue db now runId ∨ WallDue db now runId := by
    intro todo htodo hdue
    cases todo with
    | leases rows =>
      refine hdue.imp_left fun hmem => ?_
      obtain ⟨x, hx, rfl⟩ := List.mem_map.mp hmem
      exact leaseDue_iff.mpr ⟨⟨x.1, (h.sound _ htodo).2 x hx⟩, hrunning⟩
    | wall runs => exact .inr (h.sound _ htodo runId hdue hrunning)
  cases hstage : s.stage with
  | selectExpired =>
    rw [hstage] at hdue
    exact .inr hdue
  | selectExhausted =>
    rw [hstage] at hdue
    exact .inr (.inr hdue)
  | next todo =>
    rw [hstage] at hdue
    exact .inr (hrest todo (by rw [hstage]; rfl) hdue)
  | readStatus r todo =>
    rw [hstage] at hdue
    rcases hdue with rfl | hdue
    · cases todo with
      | leases rows => exact .inl rfl
      | wall runs =>
        exact .inr (.inr (h.awaiting runId runs (by rw [hstage]; rfl) (by rw [hstage]; rfl) hrunning))
    · exact .inr (hrest todo (by rw [hstage]; rfl) hdue)
  | pause r todo =>
    rw [hstage] at hdue
    rcases hdue with rfl | hdue
    · cases todo with
      | leases rows => exact .inl rfl
      | wall runs =>
        exact .inr (.inr (h.awaiting runId runs (by rw [hstage]; rfl) (by rw [hstage]; rfl) hrunning))
    · exact .inr (hrest todo (by rw [hstage]; rfl) hdue)

def Stage.leaseRuns : Stage → List Uuid
  | .next (.leases rows) => rows.map Prod.snd
  | .readStatus r (.leases rows) => r :: rows.map Prod.snd
  | .pause r (.leases rows) => r :: rows.map Prod.snd
  | _ => []

theorem mem_leaseRuns_of_unpaused {stage : Stage} {runId : Uuid}
    (h : stage.unpaused = some runId) : runId ∈ stage.leaseRuns := by
  unfold Stage.unpaused at h
  split at h
  · cases h; exact List.mem_cons_self
  · cases h; exact List.mem_cons_self
  · cases h

structure Swept (db db' : Db) (runs : List Uuid) : Prop where
  row : ∀ r, isRunning db' r = true → db'.runs.get? r = db.runs.get? r
  binding : ∀ now x, ReadyExpired db now x → ReadyExpired db' now x ∨ x.2 ∈ runs

theorem Swept.refl (db : Db) (runs : List Uuid) : Swept db db runs :=
  ⟨fun _ _ => rfl, fun _ _ h => .inl h⟩

theorem Swept.trans {db db' db'' : Db} {runs runs' : List Uuid} (h : Swept db db' runs)
    (h' : Swept db' db'' runs') (hsub : runs' ⊆ runs) : Swept db db'' runs where
  row r hrunning := by
    have hsame := h'.row r hrunning
    rw [hsame]
    exact h.row r (by rwa [← isRunning_congr hsame])
  binding now x hready := by
    rcases h.binding now x hready with hready' | hmem
    · exact (h'.binding now x hready').imp_right fun hmem => hsub hmem
    · exact .inr hmem

theorem Visits.leaseRuns {s : Sweep} {runId : Uuid} {todo : Todo} (h : Visits s s' runId todo) :
    s'.stage ≠ .selectExpired ∧ s'.stage.leaseRuns ⊆ (Stage.readStatus runId todo).leaseRuns := by
  rcases h with ⟨-, hnext, -⟩ | ⟨hnext, -⟩
  · rw [hnext]
    refine ⟨fun h => (by cases h), fun r hr => ?_⟩
    cases todo with
    | leases rows => exact List.mem_cons_of_mem _ hr
    | wall runs => exact hr
  · rw [hnext]
    exact ⟨fun h => (by cases h), fun r hr => hr⟩

theorem Alone.swept {db : Db} {now : Int} {s : Sweep} (h : Alone db now s)
    (hselected : s.stage ≠ .selectExpired) :
    Swept db (s.advance db now).1 s.stage.leaseRuns ∧
      ∀ s', (s.advance db now).2 = some s' →
        s'.stage ≠ .selectExpired ∧ s'.stage.leaseRuns ⊆ s.stage.leaseRuns := by
  have hstatement := h.statement
  generalize (s.advance db now).1 = db' at hstatement ⊢
  generalize (s.advance db now).2 = os at hstatement ⊢
  cases hstatement with
  | selectExpired s' hstage => exact absurd hstage hselected
  | quarantine s' b r rows hstage hvisits =>
    rw [hstage]
    refine ⟨⟨fun r' _ => by rw [quarantineReady_runs], fun now' x hready => ?_⟩, ?_⟩
    · by_cases hb : x.1 = b
      · -- The binding has one owner.
        right
        obtain ⟨row, hrow, howner, -⟩ := (h.sound (.leases ((b, r) :: rows))
          (by rw [hstage]; rfl)).2 _ List.mem_cons_self
        obtain ⟨row', hrow', howner', -⟩ := hready
        rw [hb, hrow] at hrow'
        cases hrow'
        cases howner.symm.trans howner'
        exact List.mem_cons_self
      · exact .inl (readyExpired_quarantineReady hb hready)
    · rintro _ ⟨⟩
      exact hvisits.leaseRuns
  | turn s' hstage hnext =>
    refine ⟨.refl db _, ?_⟩
    rintro _ ⟨⟩
    rw [hnext]
    exact ⟨fun h => (by cases h), List.nil_subset _⟩
  | selectExhausted s' hstage hnext =>
    refine ⟨.refl db _, ?_⟩
    rintro _ ⟨⟩
    rw [hnext]
    exact ⟨fun h => (by cases h), List.nil_subset _⟩
  | visit s' r runs hstage hvisits =>
    rw [hstage]
    refine ⟨.refl db _, ?_⟩
    rintro _ ⟨⟩
    exact hvisits.leaseRuns
  | found s' r todo hstage hrunning hnext =>
    rw [hstage]
    refine ⟨.refl db _, ?_⟩
    rintro _ ⟨⟩
    rw [hnext]
    refine ⟨fun h => (by cases h), ?_⟩
    cases todo <;> exact List.Subset.refl _
  | skipped s' r todo hstage hrunning hnext =>
    rw [hstage]
    refine ⟨.refl db _, ?_⟩
    rintro _ ⟨⟩
    rw [hnext]
    refine ⟨fun h => (by cases h), ?_⟩
    cases todo with
    | leases rows => exact List.subset_cons_self _ _
    | wall runs => exact List.Subset.refl _
  | paused db' s' r todo hstage hpaused hnext =>
    rw [hstage]
    refine ⟨⟨fun r' hrunning => hpaused.others r' ?_, fun now' x hready => ?_⟩, ?_⟩
    · rintro rfl
      rw [hpaused.paused] at hrunning
      cases hrunning
    · exact .inl (hpaused.readyExpired_iff.mpr hready)
    · rintro _ ⟨⟩
      rw [hnext]
      refine ⟨fun h => (by cases h), ?_⟩
      cases todo with
      | leases rows => exact List.subset_cons_self _ _
      | wall runs => exact List.Subset.refl _
  | done hstage => exact ⟨.refl db _, fun _ h => by cases h⟩

theorem take_swept {db : Db} {now : Int} {s : Sweep} (h : Alone db now s)
    (hselected : s.stage ≠ .selectExpired) {clocks : List Int}
    (hclocks : (now :: clocks).Pairwise (· ≤ ·)) :
    Swept db (Sweep.take db (some s) clocks).1 s.stage.leaseRuns ∧
      ∀ s', (Sweep.take db (some s) clocks).2 = some s' →
        s'.stage.leaseRuns ⊆ s.stage.leaseRuns := by
  induction clocks generalizing db now s with
  | nil =>
    refine ⟨.refl db _, ?_⟩
    rintro _ ⟨⟩
    exact List.Subset.refl _
  | cons t clocks ih =>
    obtain ⟨hle, hrest⟩ := List.pairwise_cons.mp hclocks
    have halone := h.later (hle t List.mem_cons_self)
    obtain ⟨hswept, hnext⟩ := halone.swept hselected
    rw [Sweep.take]
    cases hs' : (s.advance db t).2 with
    | none =>
      rw [Sweep.take_none]
      exact ⟨hswept, fun _ h => by cases h⟩
    | some s' =>
      obtain ⟨hselected', hsub⟩ := hnext s' hs'
      obtain ⟨hswept', hruns⟩ := ih (halone.step hs') hselected' hrest
      exact ⟨hswept.trans hswept' hsub, fun s'' hs'' => List.Subset.trans (hruns s'' hs'') hsub⟩

section Crash

variable {db : Db} {clocks : List Int} {restart : Int}
  (hclocks : (clocks ++ [restart]).Pairwise (· ≤ ·))
include hclocks

theorem first_le : (clocks.head?.getD restart :: clocks).Pairwise (· ≤ ·) := by
  obtain ⟨hsorted, -, -⟩ := List.pairwise_append.mp hclocks
  cases clocks with
  | nil => exact List.pairwise_singleton _ _
  | cons t clocks =>
    refine List.pairwise_cons.mpr ⟨fun u hu => ?_, hsorted⟩
    rcases List.mem_cons.mp hu with rfl | hu
    · exact Int.le_refl _
    · exact (List.pairwise_cons.mp hsorted).1 u hu

theorem le_restart : ∀ t ∈ clocks, t ≤ restart := fun t ht =>
  (List.pairwise_append.mp hclocks).2.2 t ht restart (List.mem_singleton_self _)

theorem first_le_restart : clocks.head?.getD restart ≤ restart := by
  cases hclocks' : clocks with
  | nil => exact Int.le_refl _
  | cons t rest => exact le_restart hclocks t (by rw [hclocks']; exact List.mem_cons_self)

variable (db) in
theorem interrupted_swept :
    Swept db (interrupted db clocks) ((expiredLeases db (clocks.head?.getD restart)).map Prod.snd) ∧
      ∀ s, (Sweep.take db (some .start) clocks).2 = some s →
        s.stage.leaseRuns ⊆ (expiredLeases db (clocks.head?.getD restart)).map Prod.snd := by
  have hsorted := first_le hclocks
  cases clocks with
  | nil =>
    refine ⟨.refl db _, ?_⟩
    rintro _ ⟨⟩
    exact List.nil_subset _
  | cons t clocks =>
    have hfirst : (Sweep.start.advance db t).2 =
        some ⟨.next (.leases (expiredLeases db t)), [], _⟩ := rfl
    exact take_swept ((alone_start db t).step hfirst) (fun h => (by cases h))
      (List.pairwise_cons.mp hsorted).2

theorem due_after_crash (hstrands : ¬ Strands db clocks restart) {runId : Uuid}
    (hdue : LeaseDue db (clocks.head?.getD restart) runId)
    (hrunning : isRunning (interrupted db clocks) runId = true) :
    LeaseDue (interrupted db clocks) restart runId ∨
      WallDue (interrupted db clocks) restart runId := by
  obtain ⟨s, hs, halone, hstage⟩ := take_due (alone_start db _) (fun _ => .inl hdue)
    (first_le hclocks) restart (le_restart hclocks) (first_le_restart hclocks) hrunning
  rcases halone.due_again hrunning hstage with hunpaused | hagain
  · by_contra hnot
    exact hstrands ⟨s, runId, hs, hunpaused, hrunning, not_or.mp hnot⟩
  · exact hagain

theorem converges_of_not_strands (hstrands : ¬ Strands db clocks restart) :
    Converges db clocks restart := by
  intro later hlater hcomplete x hx
  rw [Bool.eq_false_iff]
  intro hrunning
  have hagain : isRunning (interrupted db clocks) x.2 = true →
      Stage.Due (interrupted db clocks) restart x.2 .selectExpired :=
    due_after_crash hclocks hstrands (List.mem_map_of_mem hx)
  obtain ⟨last, hlast⟩ := (restart :: later).toFinset.exists_le
  simp only [List.mem_toFinset] at hlast
  obtain ⟨s, hs, -⟩ := take_due (alone_start _ restart) hagain hlater last
    (fun t ht => hlast t (List.mem_cons_of_mem _ ht)) (hlast restart List.mem_cons_self) hrunning
  rw [hcomplete] at hs
  cases hs

theorem pausesAlike_of_not_strands (hstrands : ¬ Strands db clocks restart) :
    PausesAlike db clocks restart := by
  intro m n hlater hwhole runId
  rw [Bool.eq_iff_iff, complete_running_iff hlater, complete_running_iff hwhole]
  obtain ⟨hswept, -⟩ := interrupted_swept db hclocks
  constructor
  · rintro ⟨hrunning, hlease, hwall⟩
    have hsame := hswept.row runId hrunning
    refine ⟨by rwa [← isRunning_congr hsame], fun hdue => ?_, (wallDue_congr hsame).not.mp hwall⟩
    obtain ⟨⟨b, hready⟩, -⟩ := leaseDue_iff.mp hdue
    rcases hswept.binding restart (b, runId) hready with hready' | hselected
    · exact hlease (leaseDue_iff.mpr ⟨⟨b, hready'⟩, hrunning⟩)
    · exact (due_after_crash hclocks hstrands hselected hrunning).elim hlease hwall
  · rintro ⟨hrunning, hlease, hwall⟩
    have hpassed : PassedBy db restart runId .start :=
      ⟨hrunning, hlease, hwall, not_or.mpr ⟨hlease, hwall⟩⟩
    exact take_passedBy hpassed (alone_start db _) (first_le hclocks) (le_restart hclocks)

/-- A sweep that is cut off and a whole sweep after it pause what one sweep would have paused,
exactly when the first one is not cut off between a quarantine and its pause. -/
theorem interrupted_sweep_converges_iff :
    Converges db clocks restart ∧ PausesAlike db clocks restart ↔ ¬ Strands db clocks restart := by
  constructor
  · rintro ⟨hconverges, -⟩ ⟨s, runId, hs, hunpaused, hrunning, hlease, hwall⟩
    obtain ⟨n, hcomplete⟩ := exists_complete (interrupted db clocks) restart
    obtain ⟨-, hruns⟩ := interrupted_swept db hclocks
    obtain ⟨x, hx, rfl⟩ := List.mem_map.mp (hruns s hs (mem_leaseRuns_of_unpaused hunpaused))
    have hpaused := hconverges _ (pairwise_replicate n restart) hcomplete x hx
    rw [(complete_running_iff hcomplete x.2).mpr ⟨hrunning, hlease, hwall⟩] at hpaused
    cases hpaused
  · intro hstrands
    exact ⟨converges_of_not_strands hclocks hstrands, pausesAlike_of_not_strands hclocks hstrands⟩

end Crash

def claimed : Db :=
  [.insertWorkspace 7 ⟨0, .obj [], ""⟩, .create 1 ⟨7, none, "fix it", .delegated, none⟩,
    .createBinding 5 1 ⟨"buzz", "local", "task", "abc", none, "key"⟩,
    .transition 1 .provisioning "provisioning started" 1,
    .transition 1 .ready "provisioning complete" 2, .transition 1 .running "executor claimed" 3,
    .acquireLease 5 90 4].foldl Call.apply .empty

/-- The sweep stops after its `SELECT`. -/
theorem interrupted_sweep_converges_after_select :
    Converges claimed [100000000] 100000001 ∧ PausesAlike claimed [100000000] 100000001 := by
  refine (interrupted_sweep_converges_iff (by decide)).mpr ?_
  rintro ⟨s, runId, hs, hunpaused, -⟩
  have hstage : (Sweep.take claimed (some .start) [100000000]).2.map (·.stage) =
      some (.next (.leases [(5, 1)])) := by decide +kernel
  rw [hs] at hstage
  cases (Option.some.inj hstage : s.stage = _) ▸ hunpaused

/-- The sweep stops between the quarantine and the pause. -/
theorem interrupted_sweep_strands_run :
    ¬ ∀ (db : Db) (clocks : List Int) (restart : Int), (clocks ++ [restart]).Pairwise (· ≤ ·) →
      Converges db clocks restart := by
  intro hall
  have hrun := hall claimed [100000000, 100000001] 100000002 (by decide)
    [100000002, 100000003, 100000004, 100000005] (by decide) (by decide +kernel) (5, 1)
    (by decide +kernel)
  have hrunning : isRunning (interrupted (interrupted claimed [100000000, 100000001])
      [100000002, 100000003, 100000004, 100000005]) 1 = true := by decide +kernel
  rw [hrunning] at hrun
  cases hrun

end Vingilot.Coordinator.Reconcile
