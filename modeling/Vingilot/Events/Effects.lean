import Vingilot.Events.Store

/-!
# What the statements on events read and write
-/

namespace Vingilot.Events

open Transactions

variable {χ : Type} {plan : χ → List Sql}

/-! ## Reads through writes -/

/-- What each write does to one row. -/
def eventRow (plan : χ → List Sql) (key : EventKey) :
    Transactions.Row (store plan) (.event key) fun db => db.events.get? key where
  next x w :=
    match w with
    | .event k row => if k = key then row else x
    | .inserted k row => if k = key then some row else x
    | _ => x
  read_apply db w := by
    cases w with
    | event k row =>
      cases row with
      | some row => simp only [store, Db.apply, Table.get?_set, eq_comm (a := key)]
      | none => simp only [store, Db.apply, Table.get?_remove, eq_comm (a := key)]
    | inserted k row => simp only [store, Db.apply, Table.get?_set, eq_comm (a := key)]
    | watermark c stamp => rfl
    | member k row => cases row <;> rfl
  next_other x w h := by
    cases w with
    | event k row =>
      refine if_neg ?_
      rintro rfl
      exact h rfl
    | inserted k row =>
      refine if_neg ?_
      rintro rfl
      exact h rfl
    | watermark c stamp => rfl
    | member k row => rfl

def watermarkRow (plan : χ → List Sql) (c : Coordinate) :
    Transactions.Row (store plan) (.watermark c) fun db => db.watermarks.get? c where
  next x w :=
    match w with
    | .watermark c' stamp => if c' = c then some stamp else x
    | _ => x
  read_apply db w := by
    cases w with
    | watermark c' stamp => simp only [store, Db.apply, Table.get?_set, eq_comm (a := c)]
    | event k row => cases row <;> rfl
    | inserted k row => rfl
    | member k row => cases row <;> rfl
  next_other x w h := by
    cases w with
    | watermark c' stamp =>
      refine if_neg ?_
      rintro rfl
      exact h rfl
    | _ => rfl

theorem watermark_view (plan : χ → List Sql) (db : Db) (ws : List Write) (c : Coordinate) :
    ((view (store plan).system db ws).watermarks.get? c = db.watermarks.get? c) ∨
      ∃ stamp, .watermark c stamp ∈ ws ∧
        (view (store plan).system db ws).watermarks.get? c = some stamp := by
  rw [(watermarkRow plan c).read_view]
  induction ws using List.reverseRecOn with
  | nil => exact .inl rfl
  | append_singleton ws last ih =>
    rw [List.foldl_append, List.foldl_cons, List.foldl_nil]
    have hkept : (watermarkRow plan c).next (ws.foldl (watermarkRow plan c).next
          (db.watermarks.get? c)) last = ws.foldl (watermarkRow plan c).next
          (db.watermarks.get? c) ∨ ∃ stamp, last = .watermark c stamp ∧
        (watermarkRow plan c).next (ws.foldl (watermarkRow plan c).next
          (db.watermarks.get? c)) last = some stamp := by
      cases last with
      | watermark c' stamp =>
        simp only [watermarkRow]
        split_ifs with hc
        · rw [hc]
          exact .inr ⟨stamp, rfl, rfl⟩
        · exact .inl rfl
      | _ => exact .inl rfl
    rcases hkept with hkept | ⟨stamp, rfl, hnext⟩
    · rw [hkept]
      rcases ih with hsame | ⟨stamp, hmem, hread⟩
      · exact .inl hsame
      · exact .inr ⟨stamp, List.mem_append_left _ hmem, hread⟩
    · exact .inr ⟨stamp, List.mem_append_right _ List.mem_cons_self, hnext⟩

theorem event_view (plan : χ → List Sql) (db : Db) (ws : List Write) (key : EventKey) :
    ((view (store plan).system db ws).events.get? key = db.events.get? key ∧
        (∀ row, .event key row ∉ ws) ∧ ∀ row, .inserted key row ∉ ws) ∨
      (∃ row, .event key row ∈ ws ∧ (view (store plan).system db ws).events.get? key = row) ∨
      ∃ row, .inserted key row ∈ ws ∧
        (view (store plan).system db ws).events.get? key = some row := by
  rw [(eventRow plan key).read_view]
  induction ws using List.reverseRecOn with
  | nil => exact .inl ⟨rfl, by simp, by simp⟩
  | append_singleton ws last ih =>
    rw [List.foldl_append, List.foldl_cons, List.foldl_nil]
    by_cases hlast : last.lock = .event key
    · cases last with
      | event key' row =>
        cases hlast
        exact .inr (.inl ⟨row, List.mem_append_right _ List.mem_cons_self, if_pos rfl⟩)
      | inserted key' row =>
        cases hlast
        exact .inr (.inr ⟨row, List.mem_append_right _ List.mem_cons_self, if_pos rfl⟩)
      | watermark c stamp => cases hlast
      | member key' row => cases hlast
    · rw [(eventRow plan key).next_other _ _ hlast]
      rcases ih with ⟨hsame, hnone, hnone'⟩ | ⟨row, hmem, hread⟩ | ⟨row, hmem, hread⟩
      · refine .inl ⟨hsame, ?_, ?_⟩
        · intro row hmem
          rcases List.mem_append.mp hmem with hmem | hmem
          · exact hnone row hmem
          · rw [← List.mem_singleton.mp hmem] at hlast
            exact hlast rfl
        · intro row hmem
          rcases List.mem_append.mp hmem with hmem | hmem
          · exact hnone' row hmem
          · rw [← List.mem_singleton.mp hmem] at hlast
            exact hlast rfl
      · exact .inr (.inl ⟨row, List.mem_append_left _ hmem, hread⟩)
      · exact .inr (.inr ⟨row, List.mem_append_left _ hmem, hread⟩)

def insertions (ws : List Write) : List (EventKey × Row) :=
  ws.filterMap fun
    | .inserted key row => some (key, row)
    | _ => none

variable {key : EventKey} {row : Row}

@[simp]
theorem mem_insertions {ws : List Write} : (key, row) ∈ insertions ws ↔ .inserted key row ∈ ws := by
  unfold insertions
  rw [List.mem_filterMap]
  constructor
  · rintro ⟨w, hw, heq⟩
    cases w <;> cases heq
    exact hw
  · intro h
    exact ⟨_, h, rfl⟩

theorem insertions_nil {ws : List Write} (h : ∀ key row, .inserted key row ∉ ws) :
    insertions ws = [] := by
  rw [List.eq_nil_iff_forall_not_mem]
  rintro ⟨key, row⟩ hmem
  exact h key row (mem_insertions.mp hmem)

theorem history_view (plan : χ → List Sql) (db : Db) (ws : List Write) :
    (view (store plan).system db ws).history = db.history ++ insertions ws := by
  induction ws using List.reverseRecOn with
  | nil => simp [view, insertions]
  | append_singleton ws last ih =>
    have hlast : (Db.apply (view (store plan).system db ws) last).history =
        (view (store plan).system db ws).history ++ insertions [last] := by
      cases last with
      | event key row => cases row <;> simp [Db.apply, insertions]
      | member key row => cases row <;> simp [Db.apply, insertions]
      | _ => simp [Db.apply, insertions]
    have hview : view (store plan).system db (ws ++ [last]) =
        Db.apply (view (store plan).system db ws) last := by
      simp [view, Planned.system, store]
    rw [hview, hlast, ih, List.append_assoc]
    simp [insertions]

variable {how : Retire}

theorem events_retired {db : Db} {rows : List (EventKey × Row)} {now : Int}
    (hmem : (key, row) ∈ rows) (hunique : ∀ row', (key, row') ∈ rows → row' = row) :
    (view (store plan).system db
      (rows.map fun x => .event x.1 (how.apply x.2 now))).events.get? key = how.apply row now := by
  rw [(eventRow plan key).read_view]
  induction rows using List.reverseRecOn with
  | nil => cases hmem
  | append_singleton rows last ih =>
    rw [List.map_append, List.foldl_append]
    simp only [List.map_cons, List.map_nil, List.foldl_cons, List.foldl_nil, eventRow]
    split_ifs with hlast
    · rw [hunique last.2 (by rw [← hlast]; simp)]
    · refine ih ?_ fun row' hrow' => hunique row' (List.mem_append_left _ hrow')
      rcases List.mem_append.mp hmem with hmem | hmem
      · exact hmem
      · rw [List.mem_singleton] at hmem
        exact absurd (by rw [← hmem]) hlast

theorem events_not_retired {db : Db} {rows : List (EventKey × Row)} {now : Int}
    (h : ∀ x ∈ rows, x.1 ≠ key) : (view (store plan).system db
      (rows.map fun x => .event x.1 (how.apply x.2 now))).events.get? key =
      db.events.get? key := by
  refine (eventRow plan key).read_spared ?_
  intro w hw heq
  obtain ⟨x, hx, rfl⟩ := List.mem_map.mp hw
  cases heq
  exact h x hx rfl

/-! ## Heads -/

/-- A row that the address still serves. -/
def LiveAt (db : Db) (a : Address) (key : EventKey) (row : Row) : Prop :=
  db.events.get? key = some row ∧ (Where.address a).has key row = true

variable {w : Where}

theorem mem_find {db : Db} :
    (key, row) ∈ db.find w ↔ db.events.get? key = some row ∧ w.has key row = true := by
  unfold Db.find
  rw [List.mem_filter, Table.mem_toList]

variable {a : Address}

theorem head_none {db : Db} (h : db.head a = none) : db.find (.address a) = [] := by
  unfold Db.head at h
  rw [List.max?_eq_none_iff, List.map_eq_nil_iff] at h
  exact h

theorem le_head {db : Db} {top : Stamp} (h : db.head a = some top) (hlive : LiveAt db a key row) :
    key.stamp ≤ top := by
  unfold Db.head at h
  refine (List.max?_eq_some_iff.mp h).2 _ (List.mem_map.mpr ⟨(key, row), ?_, rfl⟩)
  exact mem_find.mpr hlive

theorem exists_head {db : Db} {top : Stamp} (h : db.head a = some top) :
    ∃ key row, LiveAt db a key row ∧ key.stamp = top := by
  unfold Db.head at h
  obtain ⟨⟨key, row⟩, hmem, rfl⟩ := List.mem_map.mp (List.max?_eq_some_iff.mp h).1
  exact ⟨key, row, mem_find.mp hmem, rfl⟩

theorem retired_not_live {old : Row} {now : Int} (h : how.apply old now = some row) :
    w.has key row ≠ true := by
  cases how with
  | hard => cases h
  | soft =>
    simp only [Retire.apply, Row.softDelete] at h
    split_ifs at h
    cases h
    simp [Where.has]

theorem live_view (plan : χ → List Sql) {db : Db} {ws : List Write}
    (hretired : ∀ left, .event key left ∈ ws →
      ∃ (how : Retire) (old : Row) (now : Int), left = how.apply old now)
    (h : LiveAt (view (store plan).system db ws) a key row) :
    LiveAt db a key row ∨ .inserted key row ∈ ws := by
  obtain ⟨hget, hhas⟩ := h
  rcases event_view plan db ws key with ⟨hsame, -⟩ | ⟨left, hmem, hread⟩ | ⟨row', hmem, hread⟩
  · exact .inl ⟨hsame.symm.trans hget, hhas⟩
  · obtain ⟨how, old, now, hleft⟩ := hretired left hmem
    exact absurd hhas (retired_not_live (hleft.symm.trans (hread.symm.trans hget)))
  · cases hread.symm.trans hget
    exact .inr hmem

/-! ## What a statement can do -/

/-- The rows that were found and still match when the update runs. -/
def retiredRows (w : Where) (v : Vars) (db : Db) : List (EventKey × Row) :=
  v.found.filterMap fun key =>
    ((db.events.get? key).filter (w.has key)).map fun row => (key, row)

inductive Effect (now : Int) (v : Vars) (db : Db) : Sql → Vars → List Write → Prop
  | checkTime (secs : Int) : Effect now v db (.checkTime secs) v []
  | checkKind (kind : Kind) : Effect now v db (.checkKind kind) v []
  | lockAddress (a : Address) : Effect now v db (.lockAddress a) v []
  | readHead (a : Address) :
      Effect now v db (.readHead a) { v with existing := db.head a } []
  | readWatermark (c : Coordinate) :
      Effect now v db (.readWatermark c) { v with watermark := db.watermarks.get? c } []
  | checkStale {incoming : Stamp} (hhead : ∀ top ∈ v.existing, top < incoming)
      (hmark : ∀ mark ∈ v.watermark, mark < incoming) :
      Effect now v db (.checkStale incoming) v []
  | findRows (w : Where) (ifHead : Bool) :
      Effect now v db (.findRows w ifHead)
        { v with found :=
          if ifHead && v.existing.isNone then [] else (db.find w).map Prod.fst } []
  | retireRows (w : Where) (how : Retire) :
      Effect now v db (.retireRows w how) { v with deleted := !(retiredRows w v db).isEmpty }
        ((retiredRows w v db).map fun x => .event x.1 (how.apply x.2 now))
  | noTrigger {key : EventKey} {row : Row} (hnone : triggerCoordinate key row = none) :
      Effect now v db (.guardWatermark key row) { v with skipped := false } []
  | advanced {key : EventKey} {row : Row} {c : Coordinate}
      (htrigger : triggerCoordinate key row = some c)
      (hnewer : ∀ mark ∈ db.watermarks.get? c, mark < key.stamp) :
      Effect now v db (.guardWatermark key row) { v with skipped := false }
        [.watermark c key.stamp]
  | replayed {key : EventKey} {row : Row} {c : Coordinate}
      (htrigger : triggerCoordinate key row = some c)
      (hsame : db.watermarks.get? c = some key.stamp) :
      Effect now v db (.guardWatermark key row) { v with skipped := true } []
  | insertRow {key : EventKey} {row : Row} {rollback : Bool} (hskipped : v.skipped = false)
      (hfree : db.events.get? key = none) :
      Effect now v db (.insertRow key row rollback) { v with wasInserted := true }
        [.inserted key row]
  | notInserted (key : EventKey) (row : Row) :
      Effect now v db (.insertRow key row false) { v with wasInserted := false } []
  | upsertWatermark (c : Coordinate) (stamp : Stamp) :
      Effect now v db (.upsertWatermark c stamp) v [.watermark c stamp]
  | readMembers (communityId : CommunityId) :
      Effect now v db (.readMembers communityId)
        { v with members := db.membersOf communityId } []
  | signSnapshot (sign : List (String × String) → Event) :
      Effect now v db (.signSnapshot sign) { v with snapshot := some (sign v.members) } []
  | insertSnapshot {communityId : CommunityId} {e : Event} (hsnapshot : v.snapshot = some e)
      (hfree : db.events.get? (e.key communityId) = none) :
      Effect now v db (.insertSnapshot communityId) { v with wasInserted := true }
        [.inserted (e.key communityId) ⟨e, none, extractDTag e, none⟩]
  | putMember (key : CommunityId × String) (row : Option RelayMember) :
      Effect now v db (.putMember key row) v [.member key row]

theorem effect_of_guard {now : Int} {v v' : Vars} {db : Db} {ws : List Write}
    (h : guardWatermark key row v db = .ok (v', ws)) :
    Effect now v db (.guardWatermark key row) v' ws := by
  unfold guardWatermark at h
  split at h
  · cases h; exact .noTrigger (by assumption)
  · rename_i c hc
    split at h
    · rename_i hnone
      cases h
      exact .advanced hc (by simp [hnone])
    · rename_i accepted hget
      split_ifs at h with hlt heq
      · cases h
        exact .advanced hc (by simpa [hget] using hlt)
      · cases h
        exact .replayed hc (by rw [hget, heq])

theorem effect_of_exec {stmt : Sql} {now : Int} {v v' : Vars} {db : Db} {ws : List Write}
    (h : stmt.exec now v db = .ok (v', ws)) : Effect now v db stmt v' ws := by
  cases stmt with
  | checkTime secs =>
    simp only [Sql.exec] at h
    split_ifs at h
    cases h; exact .checkTime secs
  | checkKind kind =>
    simp only [Sql.exec] at h
    split_ifs at h
    cases h; exact .checkKind kind
  | lockAddress a => cases h; exact .lockAddress a
  | readHead a => cases h; exact .readHead a
  | readWatermark c => cases h; exact .readWatermark c
  | checkStale incoming =>
    simp only [Sql.exec] at h
    split_ifs at h with hnew
    cases h
    simp only [List.any_append, Bool.or_eq_true, not_or, List.any_eq_true, not_exists, not_and,
      dominated_eq_true, not_le, Option.mem_toList] at hnew
    exact .checkStale hnew.1 hnew.2
  | findRows w ifHead => cases h; exact .findRows w ifHead
  | retireRows w how => cases h; exact .retireRows w how
  | guardWatermark key row => exact effect_of_guard h
  | insertRow key row rollback =>
    simp only [Sql.exec] at h
    split_ifs at h with hconflict hrollback
    · cases h
      rw [Bool.not_eq_true] at hrollback
      subst hrollback
      exact .notInserted key row
    · cases h
      simp only [Bool.or_eq_true, not_or, Bool.not_eq_true, Option.isSome_eq_false_iff,
        Option.isNone_iff_eq_none] at hconflict
      exact .insertRow hconflict.1 hconflict.2
  | upsertWatermark c stamp => cases h; exact .upsertWatermark c stamp
  | readMembers communityId => cases h; exact .readMembers communityId
  | signSnapshot sign =>
    simp only [Sql.exec] at h
    split_ifs at h
    cases h; exact .signSnapshot sign
  | insertSnapshot communityId =>
    simp only [Sql.exec] at h
    split at h
    · cases h
    · rename_i e he
      split_ifs at h with hstored
      cases h
      exact .insertSnapshot he (by simpa using hstored)
  | putMember key row => cases h; exact .putMember key row

def isWriter : Sql → Bool
  | .retireRows _ _ | .guardWatermark _ _ | .insertRow _ _ _ | .upsertWatermark _ _
  | .insertSnapshot _ | .putMember _ _ => true
  | _ => false

/-- No statement so far writes. -/
def Silent (done : List Sql) : Prop := ∀ stmt ∈ done, isWriter stmt = false

section Written

variable {stmt : Sql} {now : Int} {v v' : Vars} {db : Db} {ws : List Write}

theorem inserted_written (heffect : Effect now v db stmt v' ws) (h : .inserted key row ∈ ws) :
    db.events.get? key = none ∧ v'.wasInserted = true ∧
      ((∃ rollback, stmt = .insertRow key row rollback ∧ v.skipped = false ∧ v' = { v with
          wasInserted := true }) ∨
        ∃ communityId e, stmt = .insertSnapshot communityId ∧ v.snapshot = some e ∧
          key = e.key communityId ∧ row = ⟨e, none, extractDTag e, none⟩) := by
  cases heffect with
  | insertRow hskipped hfree =>
    cases List.mem_singleton.mp h
    exact ⟨hfree, rfl, .inl ⟨_, rfl, hskipped, rfl⟩⟩
  | insertSnapshot hsnapshot hfree =>
    cases List.mem_singleton.mp h
    exact ⟨hfree, rfl, .inr ⟨_, _, rfl, hsnapshot, rfl, rfl⟩⟩
  | retireRows w how => simp at h
  | advanced htrigger hnewer => simp at h
  | upsertWatermark c stamp => simp at h
  | putMember key' row' => simp at h
  | _ => exact absurd h List.not_mem_nil

theorem event_written (heffect : Effect now v db stmt v' ws) {row : Option Row}
    (h : .event key row ∈ ws) :
    ∃ w how old, stmt = .retireRows w how ∧ (key, old) ∈ retiredRows w v db ∧
      row = how.apply old now := by
  cases heffect with
  | retireRows w how =>
    obtain ⟨x, hx, heq⟩ := List.mem_map.mp h
    cases heq
    exact ⟨w, how, x.2, rfl, hx, rfl⟩
  | insertRow hskipped hfree => simp at h
  | insertSnapshot hsnapshot hfree => simp at h
  | advanced htrigger hnewer => simp at h
  | upsertWatermark c stamp => simp at h
  | putMember key' row' => simp at h
  | _ => exact absurd h List.not_mem_nil

theorem watermark_written (heffect : Effect now v db stmt v' ws) {c : Coordinate} {stamp : Stamp}
    (h : .watermark c stamp ∈ ws) :
    stmt = .upsertWatermark c stamp ∨ ∃ key row, stmt = .guardWatermark key row ∧
      triggerCoordinate key row = some c ∧ stamp = key.stamp ∧
      ∀ mark ∈ db.watermarks.get? c, mark < key.stamp := by
  cases heffect with
  | advanced htrigger hnewer =>
    cases List.mem_singleton.mp h
    exact .inr ⟨_, _, rfl, htrigger, rfl, hnewer⟩
  | upsertWatermark c' stamp' =>
    cases List.mem_singleton.mp h
    exact .inl rfl
  | retireRows w how => simp at h
  | insertRow hskipped hfree => simp at h
  | insertSnapshot hsnapshot hfree => simp at h
  | putMember key row => simp at h
  | _ => exact absurd h List.not_mem_nil

theorem existing_kept (heffect : Effect now v db stmt v' ws) (h : ∀ a, stmt ≠ .readHead a) :
    v'.existing = v.existing := by
  cases heffect with
  | readHead a => exact absurd rfl (h a)
  | _ => rfl

theorem found_kept (heffect : Effect now v db stmt v' ws)
    (h : ∀ w ifHead, stmt ≠ .findRows w ifHead) : v'.found = v.found := by
  cases heffect with
  | findRows w ifHead => exact absurd rfl (h w ifHead)
  | _ => rfl

theorem silent_writes (heffect : Effect now v db stmt v' ws) (h : isWriter stmt = false) :
    ws = [] := by
  cases heffect with
  | retireRows w how => cases h
  | advanced htrigger hnewer => cases h
  | insertRow hskipped hfree => cases h
  | upsertWatermark c stamp => cases h
  | insertSnapshot hsnapshot hfree => cases h
  | putMember key row => cases h
  | _ => rfl

end Written

theorem notInserted_cases {stmt : Sql} {now : Int} {v : Vars} {db : Db}
    (h : stmt.exec now v db = .error .notInserted) :
    (∃ stamp, stmt = .checkStale stamp) ∨ (∃ key row rollback, stmt = .insertRow key row rollback) ∨
      ∃ c, stmt = .insertSnapshot c ∧ ∀ e ∈ v.snapshot, (db.events.get? (e.key c)).isSome = true := by
  cases stmt with
  | checkStale stamp => exact .inl ⟨stamp, rfl⟩
  | insertRow key row rollback => exact .inr (.inl ⟨key, row, rollback, rfl⟩)
  | insertSnapshot c =>
    refine .inr (.inr ⟨c, rfl, ?_⟩)
    intro e he
    simp only [Sql.exec, show v.snapshot = some e from he] at h
    split_ifs at h with hstored
    exact hstored
  | guardWatermark key row =>
    simp only [Sql.exec, guardWatermark] at h
    split at h
    · cases h
    · split at h
      · cases h
      · split_ifs at h
        cases h
  | checkTime secs =>
    simp only [Sql.exec] at h
    split_ifs at h
    cases h
  | checkKind kind =>
    simp only [Sql.exec] at h
    split_ifs at h <;> cases h
  | signSnapshot f =>
    simp only [Sql.exec] at h
    split_ifs at h
    cases h
  | _ => cases h

theorem mem_retiredRows {v : Vars} {db : Db} : (key, row) ∈ retiredRows w v db ↔
      key ∈ v.found ∧ db.events.get? key = some row ∧ w.has key row = true := by
  unfold retiredRows
  rw [List.mem_filterMap]
  constructor
  · rintro ⟨key', hfound, hmap⟩
    obtain ⟨row', hfilter, heq⟩ := Option.map_eq_some_iff.mp hmap
    cases heq
    exact ⟨hfound, Option.filter_eq_some_iff.mp hfilter⟩
  · rintro ⟨hfound, hget, hhas⟩
    exact ⟨key, hfound, by simp [hget, hhas]⟩

theorem disciplined (plan : χ → List Sql) : (store plan).Disciplined := by
  intro stmt now v db v' ws h w hw
  show (w.lock, Mode.exclusive) ∈ stmt.locks now v db
  cases effect_of_exec h with
  | retireRows cond how =>
    obtain ⟨⟨key, row⟩, hmem, rfl⟩ := List.mem_map.mp hw
    obtain ⟨hfound, hget, hhas⟩ := mem_retiredRows.mp hmem
    simp only [Sql.locks, List.mem_map, List.mem_filter]
    exact ⟨key, ⟨hfound, by simp [hget, hhas]⟩, rfl⟩
  | advanced htrigger hnewer =>
    rw [List.mem_singleton.mp hw]
    simp [Sql.locks, Write.lock, htrigger]
  | insertRow hskipped hfree =>
    rw [List.mem_singleton.mp hw]
    simp [Sql.locks, Write.lock]
  | upsertWatermark c stamp =>
    rw [List.mem_singleton.mp hw]
    simp [Sql.locks, Write.lock]
  | insertSnapshot hsnapshot hfree =>
    rw [List.mem_singleton.mp hw]
    simp [Sql.locks, Write.lock, hsnapshot]
  | putMember key row =>
    rw [List.mem_singleton.mp hw]
    simp [Sql.locks, Write.lock]
  | _ => exact absurd hw List.not_mem_nil

end Vingilot.Events
