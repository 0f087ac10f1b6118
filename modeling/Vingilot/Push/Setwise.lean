import Vingilot.Push.Fencing

/-!
# A set of wakes and the same wakes one by one (`buzz-db/src/push.rs`)

No other transaction is open and the clock stands still, so a call is a function of the tables.
`ids` are the ids that the database makes up, in the order in which they are used.
-/

namespace Vingilot.Push.Outbox

open Machine

/-! ## The two functions -/

/-- The tables after the call and its outcomes. `none` is an error, after which nothing is stored. -/
def enqueueWakes (t : Tables) (now : Int) (requests : List WakeRequest) (ids : List Uuid) :
    Tables × Option (List EnqueueWakeOutcome) :=
  let resolved := requests.map (resolve t.leases now)
  let eligible := eligibleRequests requests resolved
  match insertWakes t.outbox now eligible ids [] with
  | none => (t, none)
  | some rows =>
    ({ t with outbox := t.outbox.setAll rows },
      outcomes rows (duplicateIds t.outbox eligible rows) (requests.zip resolved) [])

def enqueueWake (t : Tables) (now : Int) (request : WakeRequest) (ids : List Uuid) :
    Tables × Option EnqueueWakeOutcome :=
  ((enqueueWakes t now [request] ids).1, (enqueueWakes t now [request] ids).2.bind List.head?)

def EnqueueWakeOutcome.left : EnqueueWakeOutcome → List Uuid → List Uuid
  | .enqueued _, ids => ids.tail
  | .duplicate _, ids => ids
  | .inactiveLease, ids => ids

def enqueueEach (now : Int) :
    Tables → List WakeRequest → List Uuid → Tables × Option (List EnqueueWakeOutcome)
  | t, [], _ => (t, some [])
  | t, r :: rest, ids =>
    match enqueueWake t now r ids with
    | (t', none) => (t', none)
    | (t', some outcome) =>
      let later := enqueueEach now t' rest (outcome.left ids)
      (later.1, later.2.map (outcome :: ·))

/-! ## Jobs of a key -/

def firstJob (rows : List (Uuid × Wake)) (key : WakeKey) : Option Uuid :=
  (rows.find? fun x => x.2.key == key).map Prod.fst

theorem firstJob_none {rows : List (Uuid × Wake)} {key : WakeKey} :
    firstJob rows key = none ↔ hasKey rows key = false := by
  rw [firstJob, Option.map_eq_none_iff, List.find?_eq_none, hasKey, List.any_eq_false]

theorem firstJob_append (rows rows' : List (Uuid × Wake)) (key : WakeKey) :
    firstJob (rows ++ rows') key = (firstJob rows key).or (firstJob rows' key) := by
  rw [firstJob, List.find?_append]
  cases h : rows.find? fun x => x.2.key == key <;> simp [firstJob, h]

theorem firstJob_singleton (x : Uuid × Wake) (key : WakeKey) :
    firstJob [x] key = if x.2.key = key then some x.1 else none := by
  by_cases h : x.2.key = key <;> simp [firstJob, h]

theorem hasKey_append (rows rows' : List (Uuid × Wake)) (key : WakeKey) :
    hasKey (rows ++ rows') key = (hasKey rows key || hasKey rows' key) := List.any_append

variable {id : Uuid}

theorem firstJob_set {outbox : Table Uuid Wake} (hnew : outbox.get? id = none) (w : Wake)
    (key : WakeKey) : firstJob (outbox.set id w).toList key =
      if w.key = key then some id else firstJob outbox.toList key := by
  have hrest : outbox.toList.filter (fun x => x.1 ≠ id) = outbox.toList := by
    rw [List.filter_eq_self]
    rintro ⟨id', w'⟩ hmem
    have hget := (Table.mem_toList ..).mp hmem
    have hne : id' ≠ id := by
      rintro rfl
      cases hnew.symm.trans hget
    simpa using hne
  rw [Table.toList_set, hrest]
  by_cases h : w.key = key <;> simp [firstJob, h]

theorem setAll_concat (outbox : Table Uuid Wake) (rows : List (Uuid × Wake)) (x : Uuid × Wake) :
    outbox.setAll (rows ++ [x]) = (outbox.setAll rows).set x.1 x.2 := by
  rw [Table.setAll, List.foldl_append]
  rfl

theorem Fresh.of_initial {outbox : Table Uuid Wake} {acc rows : List (Uuid × Wake)}
    (h : Fresh outbox rows) (hstart : acc <+: rows) : Fresh outbox acc where
  distinct := h.distinct.sublist hstart.sublist
  newId x hx := h.newId x (hstart.subset hx)
  newKey x hx := h.newKey x (hstart.subset hx)

theorem firstJob_setAll {outbox : Table Uuid Wake} {rows : List (Uuid × Wake)}
    (h : Fresh outbox rows) (key : WakeKey) :
    firstJob (outbox.setAll rows).toList key =
      (firstJob rows key).or (firstJob outbox.toList key) := by
  induction rows using List.reverseRecOn with
  | nil => rfl
  | append_singleton rows x ih =>
    have hrows := h.of_initial (List.prefix_append rows [x])
    obtain ⟨-, -, hlast⟩ := List.pairwise_append.mp h.distinct
    have hnew : (outbox.setAll rows).get? x.1 = none := by
      rw [Table.get?_setAll_eq_none]
      refine ⟨h.newId x (by simp), ?_⟩
      rw [List.mem_map]
      rintro ⟨y, hy, heq⟩
      exact (hlast y hy x (by simp)).1 heq
    rw [setAll_concat, firstJob_set hnew, ih hrows, firstJob_append, firstJob_singleton]
    by_cases hkey : x.2.key = key
    · have hnone : firstJob rows key = none := by
        rw [firstJob_none, ← Bool.not_eq_true, hasKey_iff]
        rintro ⟨y, hy, hy'⟩
        exact (hlast y hy x (by simp)).2 (hy'.trans hkey.symm)
      simp [hkey, hnone]
    · simp [hkey]

theorem duplicateIds_job {outbox : Table Uuid Wake} {eligible : List (WakeRequest × BitVec 256)}
    {rows : List (Uuid × Wake)} {y : WakeRequest × BitVec 256} (hy : y ∈ eligible)
    (hshort : rows.length < eligible.length) :
    ((duplicateIds outbox eligible rows).find? fun x => x.1 == (y.2, y.1.eventId)).map Prod.snd =
      firstJob (outbox.toList ++ rows) (y.2, y.1.eventId) := by
  unfold duplicateIds
  rw [if_pos hshort]
  generalize outbox.toList ++ rows = jobs
  induction jobs with
  | nil => rfl
  | cons x jobs ih =>
    by_cases hkey : x.2.key = (y.2, y.1.eventId)
    · have hany : (eligible.any fun y => (y.2, y.1.eventId) == x.2.key) = true := by
        rw [List.any_eq_true]
        exact ⟨y, hy, by simp [hkey]⟩
      simp only [List.filterMap_cons, hany, if_true, firstJob]
      rw [List.find?_cons_of_pos (by simpa using hkey), List.find?_cons_of_pos (by simpa using hkey)]
      rfl
    · rw [firstJob, List.find?_cons_of_neg (by simpa using hkey), ← firstJob, ← ih,
        List.filterMap_cons]
      split
      · rfl
      · rename_i z hz
        split_ifs at hz
        cases hz
        rw [List.find?_cons_of_neg (by simpa using hkey)]

/-! ## One call -/

section Call

variable {t : Tables} {now : Int} {r : WakeRequest} {ids : List Uuid} {endpointHash : BitVec 256}

theorem eligibleRequests_cons (rest : List WakeRequest) :
    eligibleRequests (r :: rest) ((r :: rest).map (resolve t.leases now)) =
      ((resolve t.leases now r).map fun h => (r, h)).toList ++
        eligibleRequests rest (rest.map (resolve t.leases now)) := by
  cases h : resolve t.leases now r <;> simp [eligibleRequests, h]

theorem enqueueWake_inactive (h : resolve t.leases now r = none) :
    enqueueWake t now r ids = (t, some .inactiveLease) := by
  have hnone : t.outbox.setAll [] = t.outbox := rfl
  simp [enqueueWake, enqueueWakes, eligibleRequests, h, insertWakes, outcomes, hnone]

theorem enqueueWake_taken (h : resolve t.leases now r = some endpointHash)
    (hjob : firstJob t.outbox.toList (endpointHash, r.eventId) = some id) :
    enqueueWake t now r ids = (t, some (.duplicate id)) := by
  have hkey : hasKey t.outbox.toList (endpointHash, r.eventId) = true := by
    by_contra hno
    rw [Bool.not_eq_true, ← firstJob_none, hjob] at hno
    cases hno
  have hfound : ((duplicateIds t.outbox [(r, endpointHash)] []).find?
      fun x => x.1 == (endpointHash, r.eventId)).map Prod.snd = some id := by
    have hlookup := @duplicateIds_job t.outbox [(r, endpointHash)] [] (r, endpointHash) (by simp)
      (by simp)
    rw [hlookup, List.append_nil, hjob]
  have hnone : t.outbox.setAll [] = t.outbox := rfl
  have hnokey : hasKey [] (endpointHash, r.eventId) = false := rfl
  simp [enqueueWake, enqueueWakes, eligibleRequests, h, insertWakes, hkey, outcomes, jobId, hfound,
    hnokey, hnone]

theorem enqueueWake_new (h : resolve t.leases now r = some endpointHash)
    (hjob : firstJob t.outbox.toList (endpointHash, r.eventId) = none) :
    enqueueWake t now r ids =
      match ids with
      | [] => (t, none)
      | id :: _ =>
        if (t.outbox.get? id).isSome || !(newWake now r endpointHash).check then (t, none)
        else ({ t with outbox := t.outbox.set id (newWake now r endpointHash) },
          some (.enqueued id)) := by
  rw [firstJob_none] at hjob
  have hnokey : hasKey [] (endpointHash, r.eventId) = false := rfl
  cases ids with
  | nil => simp [enqueueWake, enqueueWakes, eligibleRequests, h, insertWakes, hjob, hnokey]
  | cons id ids =>
    by_cases hbad : (t.outbox.get? id).isSome || !(newWake now r endpointHash).check
    · simp only [enqueueWake, enqueueWakes, eligibleRequests, List.map_cons, List.map_nil, h,
        List.zip_cons_cons, List.zip_nil_right, List.filterMap_cons, Option.map_some,
        List.filterMap_nil, insertWakes, hjob, hnokey, Bool.or_false, Bool.false_eq_true, if_false,
        List.contains_nil, hbad, if_true, Option.bind_none]
    · have hkey : (newWake now r endpointHash).key = (endpointHash, r.eventId) := rfl
      have hone : hasKey [(id, newWake now r endpointHash)] (endpointHash, r.eventId) = true := by
        simp [hasKey, hkey]
      have hset : t.outbox.setAll [(id, newWake now r endpointHash)] =
        t.outbox.set id (newWake now r endpointHash) := rfl
      simp [enqueueWake, enqueueWakes, eligibleRequests, h, insertWakes, hjob, hnokey, hbad,
        outcomes, jobId, hkey, hone, hset]

end Call

/-! ## The insert of a set -/

section Insert

variable {outbox : Table Uuid Wake} {now : Int} {eligible : List (WakeRequest × BitVec 256)}
  {ids : List Uuid} {acc rows : List (Uuid × Wake)}

theorem insertWakes_extends (h : insertWakes outbox now eligible ids acc = some rows) :
    acc <+: rows := by
  induction eligible generalizing ids acc with
  | nil =>
    cases h
    exact List.prefix_rfl
  | cons y rest ih =>
    obtain ⟨r, endpointHash⟩ := y
    rw [insertWakes.eq_def] at h
    simp only at h
    split_ifs at h with htaken
    · exact ih h
    · split at h
      · cases h
      · split_ifs at h
        exact (List.prefix_append _ _).trans (ih h)

theorem insertWakes_short (h : insertWakes outbox now eligible ids acc = some rows) :
    rows.length ≤ acc.length + eligible.length ∧
      ∀ y ∈ eligible, hasKey rows (y.2, y.1.eventId) = false →
        rows.length < acc.length + eligible.length := by
  induction eligible generalizing ids acc with
  | nil =>
    cases h
    exact ⟨Nat.le_refl _, fun y hy => absurd hy List.not_mem_nil⟩
  | cons y rest ih =>
    obtain ⟨r, endpointHash⟩ := y
    rw [insertWakes.eq_def] at h
    simp only at h
    rw [List.length_cons]
    split_ifs at h with htaken
    · have hle := (ih h).1
      exact ⟨by omega, fun _ _ _ => by omega⟩
    · split at h
      · cases h
      · rename_i id ids
        split_ifs at h
        obtain ⟨hle, hlt⟩ := ih h
        rw [List.length_append, List.length_singleton] at hle hlt
        refine ⟨by omega, fun y hy hno => ?_⟩
        rcases List.mem_cons.mp hy with rfl | hy
        · have hhas : hasKey (acc ++ [(id, newWake now r endpointHash)])
              (endpointHash, r.eventId) = true := by
            rw [hasKey_iff]
            exact ⟨(id, newWake now r endpointHash), by simp, rfl⟩
          obtain ⟨x, hx, hkey⟩ := hasKey_iff.mp hhas
          have hin := hasKey_iff.mpr ⟨x, (insertWakes_extends h).subset hx, hkey⟩
          rw [hno] at hin
          cases hin
        · have hlt' := hlt y hy hno
          omega

end Insert

/-! ## Rows of the same set -/

section Rows

variable {outbox : Table Uuid Wake} {acc rows : List (Uuid × Wake)} {key : WakeKey}

theorem firstJob_setAll_none (h : Fresh outbox acc) :
    firstJob (outbox.setAll acc).toList key = none ↔
      (hasKey outbox.toList key || hasKey acc key) = false := by
  rw [firstJob_setAll h, Option.or_eq_none_iff, firstJob_none, firstJob_none, Bool.or_eq_false_iff,
    and_comm]

theorem firstJob_kept (h : Fresh outbox rows) (hstart : acc <+: rows)
    (hjob : firstJob (outbox.setAll acc).toList key = some id) :
    firstJob (outbox.setAll rows).toList key = some id := by
  rw [firstJob_setAll (h.of_initial hstart), Option.or_eq_some_iff] at hjob
  rw [firstJob_setAll h]
  obtain ⟨rest, rfl⟩ := hstart
  rcases hjob with hacc | ⟨-, hold⟩
  · rw [firstJob_append, hacc]
    rfl
  · have hnone : firstJob (acc ++ rest) key = none := by
      rw [firstJob_none, ← Bool.not_eq_true, hasKey_iff]
      rintro ⟨x, hx, rfl⟩
      rw [firstJob_none.mpr (h.newKey x hx)] at hold
      cases hold
    rw [hnone, hold]
    rfl

end Rows

/-! ## One by one -/

section Each

variable {t : Tables} {now : Int}

def Tables.withRows (t : Tables) (rows : List (Uuid × Wake)) : Tables :=
  { t with outbox := t.outbox.setAll rows }

/-- What the call for a request does after the rows `acc`, and what the insert of the set does. -/
inductive CallCase (t : Tables) (now : Int) (r : WakeRequest) (endpointHash : BitVec 256)
    (acc : List (Uuid × Wake)) (ids : List Uuid) : Prop
  | taken (id : Uuid)
      (hjob : firstJob (t.outbox.setAll acc).toList (endpointHash, r.eventId) = some id)
      (hhas : hasKey t.outbox.toList (endpointHash, r.eventId) = true ∨
        hasKey acc (endpointHash, r.eventId) = true)
      (hcall : enqueueWake (t.withRows acc) now r ids = (t.withRows acc, some (.duplicate id)))
      (hinsert : ∀ more, insertWakes t.outbox now ((r, endpointHash) :: more) ids acc =
        insertWakes t.outbox now more ids acc)
  | refused
      (hwhy : ids = [] ∨ (∃ id ∈ ids, (t.withRows acc).outbox.get? id ≠ none) ∨
        (newWake now r endpointHash).check = false)
      (hcall : enqueueWake (t.withRows acc) now r ids = (t.withRows acc, none))
      (hinsert : ∀ more, insertWakes t.outbox now ((r, endpointHash) :: more) ids acc = none)
  | new (id : Uuid) (rest : List Uuid) (hids : ids = id :: rest)
      (hfree : hasKey acc (endpointHash, r.eventId) = false)
      (hfresh : Fresh t.outbox (acc ++ [(id, newWake now r endpointHash)]))
      (hjob : firstJob (t.outbox.setAll (acc ++ [(id, newWake now r endpointHash)])).toList
        (endpointHash, r.eventId) = some id)
      (hcall : enqueueWake (t.withRows acc) now r ids =
        (t.withRows (acc ++ [(id, newWake now r endpointHash)]), some (.enqueued id)))
      (hinsert : ∀ more, insertWakes t.outbox now ((r, endpointHash) :: more) ids acc =
        insertWakes t.outbox now more rest (acc ++ [(id, newWake now r endpointHash)]))

theorem call_cases {r : WakeRequest} {endpointHash : BitVec 256} {acc : List (Uuid × Wake)}
    (hacc : Fresh t.outbox acc) (hresolve : resolve t.leases now r = some endpointHash)
    (ids : List Uuid) : CallCase t now r endpointHash acc ids := by
  have hleases : resolve (t.withRows acc).leases now r = some endpointHash := hresolve
  cases hold : firstJob (t.outbox.setAll acc).toList (endpointHash, r.eventId) with
  | some id =>
    have htaken : (hasKey t.outbox.toList (endpointHash, r.eventId) ||
        hasKey acc (endpointHash, r.eventId)) = true := by
      by_contra hno
      rw [Bool.not_eq_true, ← firstJob_setAll_none hacc, hold] at hno
      cases hno
    refine .taken id hold (Bool.or_eq_true _ _ ▸ htaken) (enqueueWake_taken hleases hold) ?_
    intro more
    rw [insertWakes.eq_def]
    exact if_pos htaken
  | none =>
    have hfree := (firstJob_setAll_none hacc).mp hold
    have hcall : enqueueWake (t.withRows acc) now r ids = _ := enqueueWake_new hleases hold
    cases ids with
    | nil =>
      refine .refused (.inl rfl) hcall fun more => ?_
      rw [insertWakes.eq_def]
      exact if_neg (by rw [hfree]; decide)
    | cons id ids =>
      have hseen : ((t.withRows acc).outbox.get? id).isSome =
          ((t.outbox.get? id).isSome || (acc.map Prod.fst).contains id) := by
        rw [Bool.eq_iff_iff, ← not_iff_not, Bool.not_eq_true, Bool.not_eq_true, Option.isSome_eq_false_iff,
          Option.isNone_iff_eq_none, Bool.or_eq_false_iff, Option.isSome_eq_false_iff,
          Option.isNone_iff_eq_none, List.contains_eq_mem, decide_eq_false_iff_not]
        exact Table.get?_setAll_eq_none ..
      simp only [hseen] at hcall
      have hstep : ∀ more, insertWakes t.outbox now ((r, endpointHash) :: more) (id :: ids) acc =
          if (t.outbox.get? id).isSome || (acc.map Prod.fst).contains id ||
            !(newWake now r endpointHash).check then none
          else insertWakes t.outbox now more ids (acc ++ [(id, newWake now r endpointHash)]) := by
        intro more
        rw [insertWakes.eq_def]
        exact if_neg (by rw [hfree]; decide)
      by_cases hbad : (t.outbox.get? id).isSome || (acc.map Prod.fst).contains id ||
          !(newWake now r endpointHash).check
      · simp only [if_pos hbad] at hcall hstep
        refine .refused ?_ hcall hstep
        rw [← hseen, Bool.or_eq_true, Bool.not_eq_true'] at hbad
        refine .inr (hbad.imp_left fun hsome => ⟨id, List.mem_cons_self, ?_⟩)
        exact Option.isSome_iff_ne_none.mp hsome
      · simp only [if_neg hbad] at hcall hstep
        have hnew : (t.outbox.setAll acc).get? id = none := by
          rw [← hseen, Bool.or_eq_true, not_or] at hbad
          exact Option.not_isSome_iff_eq_none.mp hbad.1
        have hset := setAll_concat t.outbox acc (id, newWake now r endpointHash)
        have hfresh : Fresh t.outbox (acc ++ [(id, newWake now r endpointHash)]) :=
          insertWakes_fresh hacc (hstep [])
        refine .new id ids rfl (Bool.or_eq_false_iff.mp hfree).2 hfresh ?_ ?_ hstep
        · rw [hset, firstJob_set hnew]
          exact if_pos rfl
        · rw [hcall, Tables.withRows, Tables.withRows, hset]

theorem enqueueEach_after {requests : List WakeRequest} {ids : List Uuid}
    {acc rows : List (Uuid × Wake)} {found : List (WakeKey × Uuid)} {reported : List WakeKey}
    (hacc : Fresh t.outbox acc)
    (hinsert : insertWakes t.outbox now
      (eligibleRequests requests (requests.map (resolve t.leases now))) ids acc = some rows)
    (hfound : ∀ y ∈ eligibleRequests requests (requests.map (resolve t.leases now)),
      jobId rows found (y.2, y.1.eventId) =
        firstJob (t.outbox.setAll rows).toList (y.2, y.1.eventId))
    (hreported : ∀ key, key ∈ reported ↔ hasKey acc key = true) :
    ∃ outs, enqueueEach now (t.withRows acc) requests ids = (t.withRows rows, some outs) ∧
      outcomes rows found (requests.zip (requests.map (resolve t.leases now))) reported =
        some outs := by
  induction requests generalizing ids acc reported with
  | nil =>
    cases hinsert
    exact ⟨[], rfl, rfl⟩
  | cons r rest ih =>
    rw [eligibleRequests_cons] at hinsert hfound
    have hrows : Fresh t.outbox rows := insertWakes_fresh hacc hinsert
    cases hresolve : resolve t.leases now r with
    | none =>
      rw [hresolve] at hinsert hfound
      have hcall := @enqueueWake_inactive (t.withRows acc) now r ids hresolve
      obtain ⟨outs, heach, houts⟩ := ih hacc hinsert hfound hreported
      refine ⟨.inactiveLease :: outs, ?_, ?_⟩
      · simp only [enqueueEach, hcall, EnqueueWakeOutcome.left, heach, Option.map_some]
      · simp only [List.map_cons, List.zip_cons_cons, hresolve, outcomes, houts, Option.map_some]
    | some endpointHash =>
      rw [hresolve] at hinsert hfound
      have hjob := hfound (r, endpointHash) (by simp)
      have hrest := fun y hy => hfound y (List.mem_append_right _ hy)
      simp only [Option.map_some, Option.toList_some, List.singleton_append] at hinsert
      cases call_cases hacc hresolve ids with
      | taken id hold hhas hcall hmore =>
        rw [hmore] at hinsert
        obtain ⟨outs, heach, houts⟩ := ih hacc hinsert hrest hreported
        rw [firstJob_kept hrows (insertWakes_extends hinsert) hold] at hjob
        have hknown : ¬(hasKey rows (endpointHash, r.eventId) = true ∧
            (endpointHash, r.eventId) ∉ reported) := by
          rintro ⟨hin, hnot⟩
          rw [hreported] at hnot
          obtain ⟨x, hx, hkey⟩ := hasKey_iff.mp hin
          have hnew := hrows.newKey x hx
          rw [hkey] at hnew
          exact (Bool.eq_false_iff.mp hnew) (hhas.resolve_right hnot)
        refine ⟨.duplicate id :: outs, ?_, ?_⟩
        · simp only [enqueueEach, hcall, EnqueueWakeOutcome.left, heach, Option.map_some]
        · simp only [List.map_cons, List.zip_cons_cons, hresolve, outcomes, Option.bind_eq_bind,
            hjob, Option.bind_some, if_neg hknown, houts, Option.map_some]
      | refused hwhy hcall hmore =>
        rw [hmore] at hinsert
        cases hinsert
      | new id left hids hfree hfresh hold hcall hmore =>
        subst hids
        rw [hmore] at hinsert
        have hstart := insertWakes_extends hinsert
        have hone : ∀ key, hasKey [(id, newWake now r endpointHash)] key =
            ((endpointHash, r.eventId) == key) := fun key => by
          simp [hasKey, newWake, Wake.key]
        have hreported' : ∀ key, key ∈ (endpointHash, r.eventId) :: reported ↔
            hasKey (acc ++ [(id, newWake now r endpointHash)]) key = true := by
          intro key
          rw [List.mem_cons, hreported, hasKey_append, hone, Bool.or_eq_true, beq_iff_eq, or_comm,
            @eq_comm _ key]
        obtain ⟨outs, heach, houts⟩ := ih hfresh hinsert hrest hreported'
        rw [firstJob_kept hrows hstart hold] at hjob
        have hfirst : hasKey rows (endpointHash, r.eventId) = true ∧
            (endpointHash, r.eventId) ∉ reported := by
          refine ⟨hasKey_iff.mpr ⟨(id, newWake now r endpointHash), hstart.subset (by simp), rfl⟩, ?_⟩
          rw [hreported, hfree]
          decide
        refine ⟨.enqueued id :: outs, ?_, ?_⟩
        · simp only [enqueueEach, hcall, EnqueueWakeOutcome.left, List.tail_cons, heach,
            Option.map_some]
        · simp only [List.map_cons, List.zip_cons_cons, hresolve, outcomes, Option.bind_eq_bind,
            hjob, Option.bind_some, if_pos hfirst, houts, Option.map_some]

theorem enqueueEach_fails {requests : List WakeRequest} {ids : List Uuid}
    {acc : List (Uuid × Wake)} (hacc : Fresh t.outbox acc)
    (hinsert : insertWakes t.outbox now
      (eligibleRequests requests (requests.map (resolve t.leases now))) ids acc = none) :
    (enqueueEach now (t.withRows acc) requests ids).2 = none := by
  induction requests generalizing ids acc with
  | nil => cases hinsert
  | cons r rest ih =>
    rw [eligibleRequests_cons] at hinsert
    cases hresolve : resolve t.leases now r with
    | none =>
      rw [hresolve] at hinsert
      have hcall := @enqueueWake_inactive (t.withRows acc) now r ids hresolve
      simp only [enqueueEach, hcall, EnqueueWakeOutcome.left, ih hacc hinsert, Option.map_none]
    | some endpointHash =>
      rw [hresolve] at hinsert
      simp only [Option.map_some, Option.toList_some, List.singleton_append] at hinsert
      cases call_cases hacc hresolve ids with
      | taken id hold hhas hcall hmore =>
        rw [hmore] at hinsert
        simp only [enqueueEach, hcall, EnqueueWakeOutcome.left, ih hacc hinsert, Option.map_none]
      | refused hwhy hcall hmore => simp only [enqueueEach, hcall]
      | new id left hids hfree hfresh hold hcall hmore =>
        subst hids
        rw [hmore] at hinsert
        simp only [enqueueEach, hcall, EnqueueWakeOutcome.left, List.tail_cons, ih hfresh hinsert,
          Option.map_none]

theorem enqueueEach_ok {requests : List WakeRequest} {ids : List Uuid} {acc : List (Uuid × Wake)}
    (hacc : Fresh t.outbox acc) (hlength : requests.length ≤ ids.length) (hids : ids.Nodup)
    (hnew : ∀ id ∈ ids, (t.withRows acc).outbox.get? id = none)
    (hcheck : ∀ r ∈ requests, ∀ h, resolve t.leases now r = some h →
      (newWake now r h).check = true) :
    ∃ outs, (enqueueEach now (t.withRows acc) requests ids).2 = some outs := by
  induction requests generalizing ids acc with
  | nil => exact ⟨[], rfl⟩
  | cons r rest ih =>
    rw [List.length_cons] at hlength
    have hrest := fun r hr => hcheck r (List.mem_cons_of_mem _ hr)
    cases hresolve : resolve t.leases now r with
    | none =>
      have hcall := @enqueueWake_inactive (t.withRows acc) now r ids hresolve
      obtain ⟨outs, houts⟩ := ih hacc (by omega) hids hnew hrest
      exact ⟨.inactiveLease :: outs, by
        simp only [enqueueEach, hcall, EnqueueWakeOutcome.left, houts, Option.map_some]⟩
    | some endpointHash =>
      cases call_cases hacc hresolve ids with
      | taken id hold hhas hcall hmore =>
        obtain ⟨outs, houts⟩ := ih hacc (by omega) hids hnew hrest
        exact ⟨.duplicate id :: outs, by
          simp only [enqueueEach, hcall, EnqueueWakeOutcome.left, houts, Option.map_some]⟩
      | refused hwhy hcall hmore =>
        rcases hwhy with rfl | ⟨id, hid, hstored⟩ | hbad
        · exact absurd hlength (by simp)
        · exact absurd (hnew id hid) hstored
        · rw [hcheck r List.mem_cons_self endpointHash hresolve] at hbad
          cases hbad
      | new id left hids' hfree hfresh hold hcall hmore =>
        subst hids'
        rw [List.nodup_cons] at hids
        rw [List.length_cons] at hlength
        have hleft : ∀ id' ∈ left,
            (t.withRows (acc ++ [(id, newWake now r endpointHash)])).outbox.get? id' = none := by
          intro id' hid'
          have hne : id' ≠ id := by
            rintro rfl
            exact hids.1 hid'
          rw [Tables.withRows, setAll_concat, Table.get?_set, if_neg hne]
          exact hnew id' (List.mem_cons_of_mem _ hid')
        obtain ⟨outs, houts⟩ := ih hfresh (by omega) hids.2 hleft hrest
        exact ⟨.enqueued id :: outs, by
          simp only [enqueueEach, hcall, EnqueueWakeOutcome.left, List.tail_cons, houts,
            Option.map_some]⟩

/-- A set of wakes is enqueued like its requests one by one, or not at all when one of them fails,
which with new ids takes a row check. -/
theorem setwise_is_one_by_one (t : Tables) (now : Int) (requests : List WakeRequest)
    (ids : List Uuid) :
    (∀ t' outs, enqueueEach now t requests ids = (t', some outs) →
      enqueueWakes t now requests ids = (t', some outs)) ∧
    ((enqueueEach now t requests ids).2 = none →
      enqueueWakes t now requests ids = (t, none)) ∧
    (requests.length ≤ ids.length → ids.Nodup → (∀ id ∈ ids, t.outbox.get? id = none) →
      (∀ r ∈ requests, ∀ h, resolve t.leases now r = some h → (newWake now r h).check = true) →
        ∃ outs, (enqueueEach now t requests ids).2 = some outs) := by
  have hnil := fresh_nil t.outbox
  have hsame : enqueueWakes t now requests ids = (t, none) ∧
      (enqueueEach now t requests ids).2 = none ∨
      ∃ t' outs, enqueueWakes t now requests ids = (t', some outs) ∧
        enqueueEach now t requests ids = (t', some outs) := by
    cases hinsert : insertWakes t.outbox now
      (eligibleRequests requests (requests.map (resolve t.leases now))) ids [] with
    | none => exact .inl ⟨by simp only [enqueueWakes, hinsert], enqueueEach_fails hnil hinsert⟩
    | some rows =>
      have hrows := insertWakes_fresh hnil hinsert
      have hfound : ∀ y ∈ eligibleRequests requests (requests.map (resolve t.leases now)),
          jobId rows (duplicateIds t.outbox
            (eligibleRequests requests (requests.map (resolve t.leases now))) rows)
              (y.2, y.1.eventId) = firstJob (t.outbox.setAll rows).toList (y.2, y.1.eventId) := by
        intro y hy
        rw [firstJob_setAll hrows, jobId, ← firstJob]
        cases hjob : firstJob rows (y.2, y.1.eventId) with
        | some id => rfl
        | none =>
          have hshort := (insertWakes_short hinsert).2 y hy (firstJob_none.mp hjob)
          rw [List.length_nil, Nat.zero_add] at hshort
          rw [duplicateIds_job hy hshort, firstJob_append, hjob, Option.or_none]
      obtain ⟨outs, heach, houts⟩ := @enqueueEach_after t now requests ids [] rows _ [] hnil hinsert
        hfound (by simp [hasKey])
      exact .inr ⟨_, outs, by simp only [enqueueWakes, hinsert, houts, Tables.withRows], heach⟩
  refine ⟨?_, ?_, fun hlength hids hnew hcheck => enqueueEach_ok hnil hlength hids hnew hcheck⟩
  · intro t' outs heach
    rcases hsame with ⟨-, hnone⟩ | ⟨t'', outs', hwakes, heach'⟩
    · rw [heach] at hnone
      cases hnone
    · rw [hwakes, ← heach', heach]
  · intro hnone
    rcases hsame with ⟨hwakes, -⟩ | ⟨t'', outs', -, heach'⟩
    · exact hwakes
    · rw [heach'] at hnone
      cases hnone

end Each

/-! ## The transaction on its own -/

variable {tx : Nat} {e : Enqueue}

section Alone

variable {s : World} {c : CommunityId} {requests : List WakeRequest} {ids : List Uuid}

/-- The statements of `enqueue_wakes`, with no statement of another transaction between them. -/
def wholeEnqueue (tx : Nat) (c : CommunityId) (requests : List WakeRequest) (ids : List Uuid) :
    List Action :=
  [.beginEnqueue c requests, .lockLeases tx, .insert tx ids, .findDuplicates tx, .commit tx]

/-- A world whose only open transaction is `tx`. -/
def OnlyOpen (s : World) (tx : Nat) (e : Enqueue) : Prop :=
  ∀ tx', s.enqueues.get? tx' = if tx' = tx then some e else none

theorem OnlyOpen.other (h : OnlyOpen s tx e) (p : Enqueue → Bool) : s.other tx c p = false := by
  rw [World.other, List.any_eq_false]
  rintro ⟨tx', e'⟩ hmem
  have hget := (Table.mem_toList ..).mp hmem
  rw [h] at hget
  split_ifs at hget with htx
  simp [htx]

theorem OnlyOpen.set (h : OnlyOpen s tx e) (e' : Enqueue) :
    OnlyOpen { s with enqueues := s.enqueues.set tx e' } tx e' := by
  intro tx'
  simp only [Table.get?_set]
  split_ifs with htx
  · rfl
  · rw [h, if_neg htx]

theorem OnlyOpen.step (h : OnlyOpen s tx e) {action : Action} (haction : action.tx = some tx) :
    step s action = stepEnqueue s tx e action := by
  rw [Outbox.step, haction]
  simp only [h tx, if_true, Option.bind_some]

theorem run_wholeEnqueue (hquiet : ∀ tx, s.enqueues.get? tx = none) {t' : Tables}
    {outs : List EnqueueWakeOutcome}
    (h : enqueueWakes (s.db c) s.clock requests ids = (t', some outs)) :
    ∃ s', run step s (wholeEnqueue s.started c requests ids) = some s' ∧
      s'.db = Function.update s.db c t' ∧ s'.clock = s.clock ∧
      (∀ tx, s'.enqueues.get? tx = none) ∧
      s'.answers = s.answers ++ [Answer.enqueued c requests (some outs)] := by
  unfold enqueueWakes at h
  simp only at h
  split at h
  · cases h
  · rename_i rows hrows
    simp only [Prod.mk.injEq] at h
    obtain ⟨rfl, houts⟩ := h
    generalize hresolved : requests.map (resolve (s.db c).leases s.clock) = resolved at hrows houts
    generalize hfound : duplicateIds (s.db c).outbox (eligibleRequests requests resolved) rows =
      found at houts
    obtain ⟨addrs, haddrs⟩ : ∃ addrs, ((requests.map WakeRequest.addr).filter fun a =>
      ((s.db c).leases.get? a).any fun l => l.eligible s.clock) = addrs := ⟨_, rfl⟩
    have hopen : OnlyOpen { s with
        enqueues := s.enqueues.set s.started ⟨c, s.clock, requests, [], .begun⟩
        started := s.started + 1 } s.started ⟨c, s.clock, requests, [], .begun⟩ := by
      intro tx'
      simp only [Table.get?_set, hquiet]
    have hlocked := hopen.set ⟨c, s.clock, requests, addrs, .locked resolved⟩
    have hinserted := hlocked.set ⟨c, s.clock, requests, addrs, .inserted resolved rows⟩
    have hlooked := hinserted.set ⟨c, s.clock, requests, addrs, .found resolved rows found⟩
    refine ⟨_, run_cons_some.mpr ⟨_, rfl, run_cons_some.mpr ⟨_, (hopen.step rfl).trans ?_,
      run_cons_some.mpr ⟨_, (hlocked.step rfl).trans ?_, run_cons_some.mpr ⟨_,
        (hinserted.step rfl).trans ?_, run_cons_some.mpr ⟨_, (hlooked.step rfl).trans rfl,
          run_nil _⟩⟩⟩⟩⟩, ?_⟩
    · simp only [stepEnqueue, haddrs, hresolved, hopen.other]
      rfl
    · simp only [stepEnqueue, hlocked.other, hrows]
      rfl
    · simp only [stepEnqueue, hfound]
    · refine ⟨rfl, rfl, ?_, ?_⟩
      · intro tx
        simp only [World.answer, World.setTables, Table.get?_remove, Table.get?_set, hquiet]
        split_ifs <;> rfl
      · simp only [World.answer, World.setTables, houts]

end Alone

/-! ### Two phones and a bad class -/

def phoneOf (author endpointHash : BitVec 256) (generation : Int) : Address × Lease :=
  (⟨author, "phone"⟩, ⟨⟨author, 10, generation, 500⟩, true, true,
    some ⟨"app", endpointHash, "grant", "urgent"⟩⟩)

def sharedPhone : Tables where
  leases := Table.setAll ∅ [phoneOf 1 5 1, phoneOf 2 5 2, phoneOf 3 6 2]
  outbox := Table.set ∅ 9 (newWake 0 ⟨⟨1, "phone"⟩, 1, 70, "default", 500⟩ 5)
  events := ∅

def wakeOf (author : BitVec 256) (generation : Int) (event : EventId) (wakeClass : String) :
    WakeRequest :=
  ⟨⟨author, "phone"⟩, generation, event, wakeClass, 500⟩

def mixedWakes : List WakeRequest :=
  [wakeOf 2 2 70 "urgent", wakeOf 1 1 71 "default", wakeOf 2 2 71 "silent", wakeOf 3 1 71 "default",
    wakeOf 4 1 71 "default", wakeOf 3 2 71 "default"]

theorem setwise_is_one_by_one_for_mixed_wakes :
    (enqueueWakes sharedPhone 0 mixedWakes [11, 12, 13, 14, 15, 16]).2 =
      some [.duplicate 9, .enqueued 11, .duplicate 11, .inactiveLease, .inactiveLease,
        .enqueued 12] := by
  have hnew : ([11, 12, 13, 14, 15, 16].all fun id =>
      (sharedPhone.outbox.get? id).isNone) = true := by decide +kernel
  have hclasses : ∀ r ∈ mixedWakes, (decide (0 < r.leaseGeneration) &&
      ["silent", "default", "time_sensitive", "urgent"].contains r.wakeClass) = true := by
    decide +kernel
  have heach : (enqueueEach 0 sharedPhone mixedWakes [11, 12, 13, 14, 15, 16]).2 =
      some [.duplicate 9, .enqueued 11, .duplicate 11, .inactiveLease, .inactiveLease,
        .enqueued 12] := by decide +kernel
  obtain ⟨hsame, -, hok⟩ :=
    setwise_is_one_by_one sharedPhone 0 mixedWakes [11, 12, 13, 14, 15, 16]
  obtain ⟨outs, houts⟩ := hok (by decide) (by decide +kernel)
    (fun id hid => Option.isNone_iff_eq_none.mp (List.all_eq_true.mp hnew id hid))
    fun r hr h _ => hclasses r hr
  rw [hsame _ outs (Prod.ext rfl houts), ← heach, houts]

/-- The row check of the last request takes the row of the first one back. -/
theorem bad_class_undoes_set :
    (enqueueEach 0 sharedPhone [wakeOf 1 1 71 "default", wakeOf 3 2 71 "loud"] [11, 12]).1.outbox.get?
        11 = some (newWake 0 (wakeOf 1 1 71 "default") 5) ∧
      (enqueueWakes sharedPhone 0 [wakeOf 1 1 71 "default", wakeOf 3 2 71 "loud"]
        [11, 12]).1.outbox.get? 11 = none := by
  decide +kernel

end Vingilot.Push.Outbox
