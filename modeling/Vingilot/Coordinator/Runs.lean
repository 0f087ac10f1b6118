import Vingilot.Coordinator.Calls

/-!
# The log of a Run's transitions (`coordinator/src/run.rs`)

The status of a Run, its log and the start of its wall clock are three places. A transition writes
them together, so the log tells the other two.
-/

namespace Vingilot.Coordinator

open Machine

/-! ## Logs -/

structure Tells (rows : List RunTransition) (row : Run) : Prop where
  first : ∀ t ∈ rows.head?, t.fromStatus = .draft
  chained : rows.IsChain fun t u => u.fromStatus = t.toStatus
  legal : ∀ t ∈ rows, t.fromStatus.canTransitionTo t.toStatus = true
  /-- No row follows a terminal status. -/
  open_ : ∀ t ∈ rows.dropLast, t.toStatus.isTerminal = false
  last : row.status = (rows.getLast?.map (·.toStatus)).getD .draft
  wall : row.wallStartedAt = (rows.find? fun t => t.toStatus = .running).map (·.createdAt)

theorem Tells.nil {row : Run} (hstatus : row.status = .draft) (hwall : row.wallStartedAt = none) :
    Tells [] row :=
  ⟨by simp, .nil, by simp, by simp, hstatus, hwall⟩

theorem not_terminal_of_legal {s next : RunStatus} (h : s.canTransitionTo next = true) :
    s.isTerminal = false := by
  rw [Bool.eq_false_iff]
  intro hterminal
  rw [(RunStatus.isTerminal_iff s).mp hterminal next] at h
  cases h

theorem Tells.append {rows : List RunTransition} {row : Run} (h : Tells rows row)
    {toStatus : RunStatus} (hlegal : row.status.canTransitionTo toStatus = true) (reason : String)
    (now : Int) :
    Tells (rows ++ [⟨row.status, toStatus, reason, now⟩]) (row.enter toStatus now) where
  first := by
    intro t ht
    cases rows with
    | nil =>
      simp only [List.nil_append, List.head?_cons, Option.mem_def, Option.some.injEq] at ht
      subst ht
      exact h.last
    | cons u rows => exact h.first t ht
  chained := by
    rw [List.isChain_append]
    refine ⟨h.chained, .singleton _, ?_⟩
    intro t ht u hu
    simp only [List.head?_cons, Option.mem_def, Option.some.injEq] at ht hu
    subst hu
    rw [h.last, ht]
    rfl
  legal := by
    intro t ht
    rcases List.mem_append.mp ht with ht | ht
    · exact h.legal t ht
    · obtain rfl := List.mem_singleton.mp ht
      exact hlegal
  open_ := by
    rw [List.dropLast_concat]
    intro t ht
    by_cases hlast : t ∈ rows.getLast?
    · -- The Run was at this row's status, and it has left it.
      have hstatus : row.status = t.toStatus := by rw [h.last, hlast]; rfl
      rw [← hstatus]
      exact not_terminal_of_legal hlegal
    · refine h.open_ t ?_
      rcases List.eq_nil_or_concat' rows with rfl | ⟨init, u, rfl⟩
      · cases ht
      · rw [List.dropLast_concat]
        rcases List.mem_append.mp ht with ht | ht
        · exact ht
        · obtain rfl := List.mem_singleton.mp ht
          simp at hlast
  last := by
    unfold Run.enter
    split_ifs <;> simp
  wall := by
    rw [List.find?_append]
    unfold Run.enter
    by_cases hto : toStatus = .running
    · simp only [hto, if_true, List.find?_cons_of_pos, decide_true]
      rw [h.wall]
      cases rows.find? fun t => t.toStatus = .running <;> rfl
    · simp only [hto, if_false, List.find?_cons_of_neg, decide_false, Bool.false_eq_true,
        not_false_eq_true, List.find?_nil, Option.or_none]
      exact h.wall

/-! ## Runs of the coordinator -/

/-- The rows of a Run's log are numbered from 1 and tell the Run. A Run that is not there has none. -/
structure Logged (db : Db) : Prop where
  none : ∀ id, db.runs.get? id = none → Numbered db.runTransitions id []
  some : ∀ id row, db.runs.get? id = some row →
    ∃ rows, Numbered db.runTransitions id rows ∧ Tells rows row

theorem logged_empty : Logged Db.empty :=
  ⟨fun _ _ => .nil fun _ => rfl, fun _ _ h => by cases h⟩

variable {db db' : Db}

theorem RunChange.logged (h : RunChange db db') (hs : Logged db) : Logged db' := by
  cases h with
  | same hruns hlog =>
    constructor
    · rw [hruns, hlog]; exact hs.none
    · rw [hruns, hlog]; exact hs.some
  | created id row hnew hstatus hwall hruns hlog =>
    constructor
    · intro id' hid'
      rw [hruns, Table.get?_set] at hid'
      split_ifs at hid'
      rw [hlog]
      exact hs.none id' hid'
    · intro id' row' hid'
      rw [hruns, Table.get?_set] at hid'
      rw [hlog]
      split_ifs at hid' with hsame
      · cases hid'
        subst hsame
        exact ⟨[], hs.none id' hnew, .nil hstatus hwall⟩
      · exact hs.some id' row' hid'
  | moved id row toStatus reason now hrow hlegal hruns hlog =>
    constructor
    · intro id' hid'
      rw [hruns, Table.get?_set] at hid'
      split_ifs at hid' with hsame
      rw [hlog]
      exact (hs.none id' hid').set_other hsame _ _
    · intro id' row' hid'
      rw [hruns, Table.get?_set] at hid'
      rw [hlog]
      split_ifs at hid' with hsame
      · cases hid'
        subst hsame
        obtain ⟨rows, hnumbered, htells⟩ := hs.some id' row hrow
        exact ⟨_, hnumbered.append _, htells.append hlegal reason now⟩
      · obtain ⟨rows, hnumbered, htells⟩ := hs.some id' row' hid'
        exact ⟨rows, hnumbered.set_other hsame _ _, htells⟩

theorem logged_of_run {calls : List Call} (h : run step Db.empty calls = some db) : Logged db := by
  refine run_invariant Logged ?_ logged_empty h
  intro s call s' hs hstep
  cases hstep
  exact (call.change s).runs.logged hs

def Grown (db db' : Db) : Prop :=
  ∀ id row rows, db.runs.get? id = some row → Numbered db.runTransitions id rows →
    ∃ row' more, db'.runs.get? id = some row' ∧ Numbered db'.runTransitions id (rows ++ more) ∧
      ∀ started, row.wallStartedAt = some started → row'.wallStartedAt = some started

theorem RunChange.grown (h : RunChange db db') : Grown db db' := by
  intro id row rows hrow hnumbered
  cases h with
  | same hruns hlog =>
    refine ⟨row, [], by rw [hruns]; exact hrow, ?_, fun _ h => h⟩
    rw [hlog, List.append_nil]
    exact hnumbered
  | created id' row' hnew hstatus hwall hruns hlog =>
    have hne : id ≠ id' := by
      rintro rfl
      rw [hnew] at hrow
      cases hrow
    refine ⟨row, [], by rw [hruns, Table.get?_set, if_neg hne]; exact hrow, ?_, fun _ h => h⟩
    rw [hlog, List.append_nil]
    exact hnumbered
  | moved id' row' toStatus reason now hrow' hlegal hruns hlog =>
    by_cases hsame : id = id'
    · subst hsame
      obtain rfl : row = row' := Option.some.inj (hrow.symm.trans hrow')
      refine ⟨row.enter toStatus now, [⟨row.status, toStatus, reason, now⟩],
        by rw [hruns, Table.get?_set, if_pos rfl], ?_, ?_⟩
      · rw [hlog]
        exact hnumbered.append _
      · intro started hstarted
        unfold Run.enter
        split_ifs
        · rw [hstarted]; rfl
        · exact hstarted
    · refine ⟨row, [], by rw [hruns, Table.get?_set, if_neg hsame]; exact hrow, ?_, fun _ h => h⟩
      rw [hlog, List.append_nil]
      exact hnumbered.set_other hsame _ _

theorem grown_of_run {calls : List Call} (h : run step db calls = some db') : Grown db db' := by
  refine run_related Grown ?_ ?_ ?_ h
  · intro s id row rows hrow hnumbered
    exact ⟨row, [], hrow, by rwa [List.append_nil], fun _ h => h⟩
  · intro s t u hst htu id row rows hrow hnumbered
    obtain ⟨row', more, hrow', hnumbered', hwall'⟩ := hst id row rows hrow hnumbered
    obtain ⟨row'', more', hrow'', hnumbered'', hwall''⟩ := htu id row' _ hrow' hnumbered'
    refine ⟨row'', more ++ more', hrow'', ?_, fun s hs => hwall'' s (hwall' s hs)⟩
    rw [← List.append_assoc]
    exact hnumbered''
  · intro s call s' hstep
    cases hstep
    exact (call.change s).runs.grown

/-- At every moment the log of a Run is numbered 1 .. n, leaves `Draft`, goes along legal edges,
stops at a terminal status and tells the status and the start of the wall clock. Whatever is called
next only adds to it, and a transition that is refused changes nothing. -/
theorem transition_log_exact {calls more : List Call} {db db' : Db} {id : Uuid} {row : Run}
    (hrun : run step Db.empty calls = some db) (hrow : db.runs.get? id = some row)
    (hmore : run step db more = some db') :
    ∃ rows, Numbered db.runTransitions id rows ∧ Tells rows row ∧
      (∃ row' rows', db'.runs.get? id = some row' ∧
        Numbered db'.runTransitions id (rows ++ rows') ∧ Tells (rows ++ rows') row' ∧
        ∀ started, row.wallStartedAt = some started → row'.wallStartedAt = some started) ∧
      ∀ toStatus reason now error, Run.transition db id toStatus reason now = .error error →
        step db (.transition id toStatus reason now) = some db := by
  obtain ⟨rows, hnumbered, htells⟩ := (logged_of_run hrun).some id row hrow
  obtain ⟨row', rows', hrow', hnumbered', hwall⟩ := grown_of_run hmore id row rows hrow hnumbered
  have hboth : run step Db.empty (calls ++ more) = some db' :=
    run_append_some.mpr ⟨db, hrun, hmore⟩
  obtain ⟨rows'', hnumbered'', htells'⟩ := (logged_of_run hboth).some id row' hrow'
  obtain rfl := hnumbered'.unique hnumbered''
  refine ⟨rows, hnumbered, htells, ⟨row', rows', hrow', hnumbered', htells', hwall⟩, ?_⟩
  intro toStatus reason now error herror
  show some (committed db (Run.transition db id toStatus reason now)) = some db
  rw [herror]
  rfl

def resumed : List Call :=
  [.insertWorkspace 7 ⟨0, .obj [], ""⟩, .create 1 ⟨7, none, "fix it", .delegated, none⟩,
    .transition 1 .provisioning "provisioning started" 1,
    .transition 1 .ready "provisioning complete" 2, .transition 1 .running "executor claimed" 10,
    .transition 1 .paused "lease lost" 20, .transition 1 .ready "again" 25,
    .transition 1 .running "resumed" 30]

theorem transition_log_exact_resumed :
    ∃ (db db' : Db) (rows rows' : List RunTransition),
      (db.runs.get? 1).bind (·.wallStartedAt) = some 10 ∧ Numbered db.runTransitions 1 rows ∧
      (db'.runs.get? 1).map (·.status) = some .failed ∧
      Numbered db'.runTransitions 1 (rows ++ rows') := by
  have hrun : ((run step Db.empty resumed).any fun db =>
      db.runs.get? 1 == some ⟨7, none, "fix it", .delegated, .running, none, some 10⟩ &&
      (run step db [.transition 1 .failed "command exit 1" 40]).any fun db' =>
        (db'.runs.get? 1).map (·.status) == some .failed) = true := by decide +kernel
  obtain ⟨db, hdb, hfacts⟩ := (Option.any_eq_true _ _).mp hrun
  simp only [Bool.and_eq_true, beq_iff_eq] at hfacts
  obtain ⟨hrow, hmore⟩ := hfacts
  obtain ⟨db', hdb', hstatus⟩ := (Option.any_eq_true _ _).mp hmore
  obtain ⟨rows, hnumbered, -, ⟨row', rows', -, hnumbered', -⟩, -⟩ :=
    transition_log_exact hdb hrow hdb'
  exact ⟨db, db', rows, rows', by rw [hrow]; rfl, hnumbered, eq_of_beq hstatus, hnumbered'⟩

end Vingilot.Coordinator
