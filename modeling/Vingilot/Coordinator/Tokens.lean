import Vingilot.Coordinator.Store

/-!
# Observed tokens of a Run (`run::observe_tokens`)

The total is a maximum, so the order of the observations does not matter to it. The time is that of
the last observation, whether or not its total counted.
-/

namespace Vingilot.Coordinator

/-- The columns of a `runs` row that the call writes. A time is in microseconds. -/
structure TokenColumns where
  tokensObserved : Int
  tokensObservedAt : Option Int
deriving DecidableEq

structure Observation where
  total : Int
  observedAt : Int

def TokenColumns.observe (row : TokenColumns) (x : Observation) : TokenColumns :=
  ⟨max row.tokensObserved x.total, some x.observedAt⟩

/-- `UPDATE runs SET .. WHERE id = $1`. -/
def observeTokens (runs : Table Uuid TokenColumns) (runId : Uuid) (x : Observation) :
    Except RunError (Table Uuid TokenColumns) :=
  match runs.get? runId with
  | none => .error (.notFound runId)
  | some row => .ok (runs.set runId (row.observe x))

def observeAll (runs : Table Uuid TokenColumns) (runId : Uuid) (xs : List Observation) :
    Table Uuid TokenColumns :=
  xs.foldl (fun runs x => (observeTokens runs runId x).toOption.getD runs) runs

def SameObservations (ys xs : List Observation) : Prop := ∀ x, x ∈ ys ↔ x ∈ xs

structure ObservationsCommute (runs : Table Uuid TokenColumns) (runId : Uuid)
    (xs : List Observation) : Prop where
  total : ∀ ys, SameObservations ys xs →
    ((observeAll runs runId ys).get? runId).map (·.tokensObserved) =
      (runs.get? runId).map fun row => xs.foldl (fun n x => max n x.total) row.tokensObserved
  time : ∀ ys, SameObservations ys xs →
    ((observeAll runs runId ys).get? runId).map (·.tokensObservedAt) =
      ((observeAll runs runId xs).get? runId).map (·.tokensObservedAt)
  ignored : ∀ before x later, SameObservations (before ++ x :: later) xs →
    ∀ row ∈ (observeAll runs runId before).get? runId, x.total ≤ row.tokensObserved →
      (observeAll runs runId (before ++ [x])).get? runId = some row

/-! ## One row -/

variable {x : Observation}

namespace TokenColumns

def observeAll (row : TokenColumns) (xs : List Observation) : TokenColumns := xs.foldl observe row

variable {row : TokenColumns} {xs ys : List Observation}

theorem observeAll_append (row : TokenColumns) (xs ys : List Observation) :
    row.observeAll (xs ++ ys) = (row.observeAll xs).observeAll ys := List.foldl_append

theorem total_observeAll (row : TokenColumns) (xs : List Observation) :
    (row.observeAll xs).tokensObserved =
      xs.foldl (fun n x => max n x.total) row.tokensObserved := by
  induction xs generalizing row with
  | nil => rfl
  | cons x xs ih => exact ih (row.observe x)

theorem total_le_iff (row : TokenColumns) (xs : List Observation) (n : Int) :
    (row.observeAll xs).tokensObserved ≤ n ↔
      row.tokensObserved ≤ n ∧ ∀ x ∈ xs, x.total ≤ n := by
  induction xs generalizing row with
  | nil => simp [observeAll]
  | cons x xs ih =>
    rw [List.forall_mem_cons, ← and_assoc, ← max_le_iff]
    exact ih (row.observe x)

theorem total_congr (row : TokenColumns) (h : SameObservations ys xs) :
    (row.observeAll ys).tokensObserved = (row.observeAll xs).tokensObserved := by
  refine eq_of_forall_ge_iff fun n => ?_
  rw [total_le_iff, total_le_iff]
  exact and_congr_right fun _ => forall_congr' fun x => by rw [h x]

theorem time_observeAll_concat (row : TokenColumns) (xs : List Observation) (x : Observation) :
    (row.observeAll (xs ++ [x])).tokensObservedAt = some x.observedAt := by
  rw [observeAll_append]
  rfl

theorem time_observeAll (row : TokenColumns) {xs : List Observation} (h : xs ≠ []) :
    ∃ x ∈ xs, (row.observeAll xs).tokensObservedAt = some x.observedAt := by
  obtain ⟨init, last, rfl⟩ := (List.eq_nil_or_concat xs).resolve_left h
  rw [List.concat_eq_append]
  exact ⟨last, by simp, time_observeAll_concat row init last⟩

theorem observe_eq_self (htotal : x.total ≤ row.tokensObserved) :
    row.observe x = row ↔ row.tokensObservedAt = some x.observedAt := by
  obtain ⟨total, time⟩ := row
  simp only [observe, max_eq_left htotal, mk.injEq, true_and]
  exact eq_comm

end TokenColumns

/-! ## The call -/

theorem get?_observeTokens (runs : Table Uuid TokenColumns) (runId : Uuid) (x : Observation) :
    ((observeTokens runs runId x).toOption.getD runs).get? runId =
      (runs.get? runId).map (·.observe x) := by
  unfold observeTokens
  cases hrow : runs.get? runId with
  | none => exact hrow
  | some row => exact (Table.get?_set ..).trans (if_pos rfl)

theorem get?_observeAll (runs : Table Uuid TokenColumns) (runId : Uuid) (xs : List Observation) :
    (observeAll runs runId xs).get? runId = (runs.get? runId).map (·.observeAll xs) := by
  induction xs generalizing runs with
  | nil => exact Option.map_id'.symm
  | cons x xs ih =>
    refine (ih _).trans ?_
    rw [get?_observeTokens, Option.map_map]
    rfl

namespace ObservationsCommute

variable {runs : Table Uuid TokenColumns} {runId : Uuid} {row : TokenColumns}
  {xs : List Observation}

theorem sameTime (h : ObservationsCommute runs runId xs) (hrow : runs.get? runId = some row)
    {y : Observation} (hx : x ∈ xs) (hy : y ∈ xs) : x.observedAt = y.observedAt := by
  -- Either may come last.
  have hlast {z : Observation} (hz : z ∈ xs) :
      some (some z.observedAt) = (some (row.observeAll xs)).map (·.tokensObservedAt) := by
    have htime := h.time (xs ++ [z]) fun w => by
      rw [List.mem_append, List.mem_singleton]
      exact ⟨fun hw => hw.elim id fun heq => heq ▸ hz, .inl⟩
    rw [get?_observeAll, get?_observeAll, hrow, Option.map_some, Option.map_some, Option.map_some,
      TokenColumns.time_observeAll_concat] at htime
    exact htime
  exact Option.some.inj (Option.some.inj ((hlast hx).trans (hlast hy).symm))

theorem knownTime (h : ObservationsCommute runs runId xs) (hrow : runs.get? runId = some row)
    (hx : x ∈ xs) (hle : x.total ≤ row.tokensObserved) :
    row.tokensObservedAt = some x.observedAt := by
  -- It may come first.
  have hfirst := h.ignored [] x xs (fun z => by
    rw [List.nil_append, List.mem_cons]
    exact ⟨fun hz => hz.elim (fun heq => heq ▸ hx) id, .inr⟩) row hrow hle
  rw [get?_observeAll, hrow, Option.map_some, Option.some_inj] at hfirst
  exact (TokenColumns.observe_eq_self hle).mp hfirst

theorem of_times (hrow : runs.get? runId = some row)
    (hsame : ∀ x ∈ xs, ∀ y ∈ xs, x.observedAt = y.observedAt)
    (hknown : ∀ x ∈ xs, x.total ≤ row.tokensObserved →
      row.tokensObservedAt = some x.observedAt) : ObservationsCommute runs runId xs where
  total ys hys := by
    rw [get?_observeAll, hrow, Option.map_some, Option.map_some, Option.map_some,
      TokenColumns.total_congr row hys, TokenColumns.total_observeAll]
  time ys hys := by
    rw [get?_observeAll, get?_observeAll, hrow]
    refine congrArg some ?_
    by_cases hnil : xs = []
    · subst hnil
      obtain rfl : ys = [] :=
        List.eq_nil_iff_forall_not_mem.mpr fun y hy => List.not_mem_nil ((hys y).mp hy)
      rfl
    · have hnil' : ys ≠ [] := by
        rintro rfl
        obtain ⟨x, hx⟩ := List.exists_mem_of_ne_nil xs hnil
        exact List.not_mem_nil ((hys x).mpr hx)
      obtain ⟨x, hx, htime⟩ := row.time_observeAll hnil
      obtain ⟨y, hy, htime'⟩ := row.time_observeAll hnil'
      exact htime'.trans ((congrArg some (hsame y ((hys y).mp hy) x hx)).trans htime.symm)
  ignored before x later hmem row' hrow' hle := by
    have hx : x ∈ xs := (hmem x).mp (by simp)
    rw [get?_observeAll, hrow, Option.map_some, Option.mem_some_iff] at hrow'
    subst hrow'
    rw [get?_observeAll, hrow, Option.map_some, TokenColumns.observeAll_append, Option.some_inj]
    refine (TokenColumns.observe_eq_self hle).mpr ?_
    by_cases hnil : before = []
    · subst hnil
      exact hknown x hx hle
    · obtain ⟨y, hy, htime⟩ := row.time_observeAll hnil
      have hy' : y ∈ xs := (hmem y).mp (List.mem_append_left _ hy)
      rw [htime, hsame y hy' x hx]

end ObservationsCommute

/-- The observations commute just when all have one time, which is that of the row already when one
of them does not exceed its total. -/
theorem observations_commute_iff (runs : Table Uuid TokenColumns) (runId : Uuid)
    (xs : List Observation) :
    ObservationsCommute runs runId xs ↔ ∀ row ∈ runs.get? runId,
      (∀ x ∈ xs, ∀ y ∈ xs, x.observedAt = y.observedAt) ∧
        ∀ x ∈ xs, x.total ≤ row.tokensObserved → row.tokensObservedAt = some x.observedAt := by
  constructor
  · intro h row hrow
    exact ⟨fun x hx y hy => h.sameTime hrow hx hy, fun x hx => h.knownTime hrow hx⟩
  · intro h
    cases hrow : runs.get? runId with
    | none =>
      -- There is no row to write.
      have hnone (ys : List Observation) : (observeAll runs runId ys).get? runId = none := by
        rw [get?_observeAll, hrow]
        rfl
      refine ⟨fun ys _ => by rw [hnone, hrow]; rfl, fun ys _ => by rw [hnone, hnone], ?_⟩
      intro before x later _ row hmem
      rw [hnone] at hmem
      cases hmem
    | some row => exact .of_times hrow (h row hrow).1 (h row hrow).2

/-- A lower total comes late. It does not count, but its time is kept. -/
theorem late_total_moves_time :
    ¬ ∀ (runs : Table Uuid TokenColumns) (runId : Uuid) (xs : List Observation),
      ObservationsCommute runs runId xs := by
  intro h
  let runs : Table Uuid TokenColumns := (∅ : Table Uuid TokenColumns).set 1 ⟨0, none⟩
  have hignored := (h runs 1 [⟨500, 20⟩, ⟨100, 10⟩]).ignored [⟨500, 20⟩] ⟨100, 10⟩ []
    (fun _ => Iff.rfl) ⟨500, some 20⟩ (by decide +kernel) (by decide)
  have hlate : (observeAll runs 1 [⟨500, 20⟩, ⟨100, 10⟩]).get? 1 = some ⟨500, some 10⟩ := by
    decide +kernel
  have hmoved := hlate.symm.trans hignored
  cases hmoved

end Vingilot.Coordinator
