import Vingilot.Events.Effects
import Vingilot.Lib.Serial

/-!
# Watermarks of NIP-RS coordinates

The trigger before an insert takes the lock of the watermark row, compares the new event with it
and moves it. Whoever holds that lock knows where the watermark stands until its commit.
-/

namespace Vingilot.Events

open Machine Transactions

def Grows (before after : Option Stamp) : Prop :=
  ∀ mark ∈ before, ∃ mark' ∈ after, mark ≤ mark'

theorem Grows.refl (x : Option Stamp) : Grows x x := fun mark hmark => ⟨mark, hmark, le_refl _⟩

theorem Grows.trans {x y z : Option Stamp} (h : Grows x y) (h' : Grows y z) : Grows x z := by
  intro mark hmark
  obtain ⟨mark', hmark', hle⟩ := h mark hmark
  obtain ⟨mark'', hmark'', hle'⟩ := h' mark' hmark'
  exact ⟨mark'', hmark'', hle.trans hle'⟩

namespace Watermarks

/-! ## What an open transaction knows -/

def Needs (done : List Sql) : Sql → Prop
  | .guardWatermark _ _ => (∀ key row, .guardWatermark key row ∉ done) ∧
    ∀ key row rollback, .insertRow key row rollback ∉ done
  | .insertRow key row _ => .guardWatermark key row ∈ done ∧ row.deletedAt = none
  | .upsertWatermark c stamp => ∃ key row, .guardWatermark key row ∈ done ∧
    .insertRow key row true ∈ done ∧ triggerCoordinate key row = some c ∧ key.stamp = stamp
  | .insertSnapshot _ => False
  | _ => True

section Rule

variable {χ : Type} (plan : χ → List Sql)

def Known (db : Db) (t : EventTx χ) : Sql → Prop
  | .guardWatermark key row => ∀ c, triggerCoordinate key row = some c →
    (.watermark c, .exclusive) ∈ t.held ∧ (t.vars.skipped = false →
      (∀ mark ∈ db.watermarks.get? c, mark < key.stamp) ∧
        ((store plan).seen db t).watermarks.get? c = some key.stamp)
  | .insertRow _ _ rollback => rollback = true → t.vars.skipped = false
  | _ => True

structure Own (db : Db) (done : List Sql) (t : EventTx χ) : Prop where
  known : ∀ stmt ∈ done, Known plan db t stmt
  one : ∀ key row key' row', .guardWatermark key row ∈ done → .guardWatermark key' row' ∈ done →
    key = key' ∧ row = row'
  inserted : ∀ key row, .inserted key row ∈ t.writes →
    row.deletedAt = none ∧ .guardWatermark key row ∈ done ∧ t.vars.skipped = false
  retired : ∀ key row, .event key (some row) ∈ t.writes → conforms row = false
  grows : ∀ c, Grows (db.watermarks.get? c) (((store plan).seen db t).watermarks.get? c)
  marks : ∀ c stamp, .watermark c stamp ∈ t.writes →
    ∃ key row, .guardWatermark key row ∈ done ∧ triggerCoordinate key row = some c

structure Sound (db : Db) : Prop where
  dominates : ∀ key row c, (key, row) ∈ db.history → triggerCoordinate key row = some c →
    ∃ mark, db.watermarks.get? c = some mark ∧ key.stamp ≤ mark
  purged : ∀ key row, db.events.get? key = some row → conforms row = true → row.deletedAt = none

variable {plan} {db : Db} {done done' : List Sql} {t u : EventTx χ}

/-! ## Commits of others -/

theorem watermark_commit (ht : (store plan).Locked t) (hfit : conflict t.held u.held = false)
    {c : Coordinate} (hu : (.watermark c, .exclusive) ∈ u.held) :
    ((store plan).seen db t).watermarks.get? c = db.watermarks.get? c :=
  (watermarkRow plan c).read_spared (spared_of_held ht hfit hu)

theorem known_commit (ht : (store plan).Locked t) (hfit : conflict t.held u.held = false)
    {stmt : Sql} (h : Known plan db u stmt) : Known plan ((store plan).seen db t) u stmt := by
  cases stmt with
  | guardWatermark key row =>
    intro c hc
    obtain ⟨hheld, hmark⟩ := h c hc
    refine ⟨hheld, ?_⟩
    intro hskipped
    obtain ⟨hnewer, hseen⟩ := hmark hskipped
    have hsame : ((store plan).seen db t).watermarks.get? c = db.watermarks.get? c :=
      watermark_commit ht hfit hheld
    rw [hsame]
    refine ⟨hnewer, ?_⟩
    rw [← hseen]
    unfold Planned.seen at hsame ⊢
    rw [(watermarkRow plan c).read_view _ u.writes, (watermarkRow plan c).read_view _ u.writes,
      hsame]
  | _ => exact h

theorem own_commit (ht : (store plan).Locked t) (hlocked : (store plan).Locked u)
    (hfit : conflict t.held u.held = false) (hu : Own plan db done u) :
    Own plan ((store plan).seen db t) done u where
  known stmt hstmt := known_commit ht hfit (hu.known stmt hstmt)
  one := hu.one
  inserted := hu.inserted
  retired := hu.retired
  grows c := (watermarkRow plan c).related_commit Grows.refl ht hlocked hfit (hu.grows c)
  marks := hu.marks

/-! ## The transaction's own statements -/

section Exec

variable {stmt : Sql} {v' : Vars} {ws : List Write}
  {rest : List (Statement Db Lock Vars Write DbError)} {locks : List (Lock × Mode)}

theorem skipped_kept {seen : Db} (heffect : Effect t.now t.vars seen stmt v' ws)
    (h : ∀ key row, stmt ≠ .guardWatermark key row) : v'.skipped = t.vars.skipped := by
  cases heffect with
  | noTrigger hnone => exact absurd rfl (h _ _)
  | advanced htrigger hnewer => exact absurd rfl (h _ _)
  | replayed htrigger hsame => exact absurd rfl (h _ _)
  | _ => rfl

theorem mark_kept (hown : Own plan db done t) (hneeds : Needs done stmt)
    (heffect : Effect t.now t.vars ((store plan).seen db t) stmt v' ws) {key : EventKey} {row : Row}
    {c : Coordinate} (hguard : .guardWatermark key row ∈ done)
    (h : ((store plan).seen db t).watermarks.get? c = some key.stamp) :
    (view (store plan).system ((store plan).seen db t) ws).watermarks.get? c =
      some key.stamp := by
  rcases watermark_view plan ((store plan).seen db t) ws c with hsame | ⟨stamp, hmem, hread⟩
  · rw [hsame, h]
  · rcases watermark_written heffect hmem with rfl | ⟨key', row', rfl, -⟩
    · obtain ⟨key', row', hguard', -, -, rfl⟩ := hneeds
      obtain ⟨rfl, -⟩ := hown.one key row key' row' hguard hguard'
      exact hread
    · exact absurd hguard (hneeds.1 key row)

theorem known_old (hown : Own plan db done t) (hneeds : Needs done stmt)
    (heffect : Effect t.now t.vars ((store plan).seen db t) stmt v' ws) {k : Sql} (hk : k ∈ done) :
    Known plan db (t.after rest locks v' ws) k := by
  have hknown := hown.known k hk
  cases k with
  | guardWatermark key row =>
    intro c hc
    obtain ⟨hheld, hmark⟩ := hknown c hc
    have hskipped : v'.skipped = t.vars.skipped := by
      refine skipped_kept heffect ?_
      rintro key' row' rfl
      exact hneeds.1 key row hk
    refine ⟨List.mem_append_left _ hheld, ?_⟩
    intro hopen
    obtain ⟨hnewer, hseen⟩ := hmark (hskipped.symm.trans hopen)
    refine ⟨hnewer, ?_⟩
    rw [Planned.seen_after]
    exact mark_kept hown hneeds heffect hk hseen
  | insertRow key row rollback =>
    intro hrollback
    refine (skipped_kept heffect ?_).trans (hknown hrollback)
    rintro key' row' rfl
    exact hneeds.2 key row rollback hk
  | _ => trivial

theorem known_new (heffect : Effect t.now t.vars ((store plan).seen db t) stmt v' ws)
    (hgrows : ∀ c, Grows (db.watermarks.get? c)
      (((store plan).seen db t).watermarks.get? c)) :
    Known plan db (t.after rest (stmt.locks t.now t.vars ((store plan).seen db t)) v' ws) stmt := by
  cases heffect with
  | noTrigger hnone =>
    intro c hc
    rw [hnone] at hc
    cases hc
  | advanced htrigger hnewer =>
    intro c hc
    cases htrigger.symm.trans hc
    refine ⟨List.mem_append_right _ (by simp [Sql.locks, htrigger]), ?_⟩
    intro _
    constructor
    · intro mark hmark
      obtain ⟨mark', hmark', hle⟩ := hgrows _ mark hmark
      exact lt_of_le_of_lt hle (hnewer mark' hmark')
    · rw [Planned.seen_after]
      simp [view, Planned.system, store, Db.apply]
  | replayed htrigger hsame =>
    intro c hc
    cases htrigger.symm.trans hc
    exact ⟨List.mem_append_right _ (by simp [Sql.locks, htrigger]), fun h => by cases h⟩
  | insertRow hskipped hfree => exact fun _ => hskipped
  | notInserted key row => exact fun h => by cases h
  | _ => trivial

theorem retired_conforms {how : Retire} {old row : Row} {now : Int}
    (h : how.apply old now = some row) : conforms row = false := by
  cases how with
  | hard => cases h
  | soft =>
    simp only [Retire.apply, Row.softDelete] at h
    split_ifs at h with hpurged
    cases h
    simp only [Bool.or_eq_true, not_or, Bool.not_eq_true] at hpurged
    exact hpurged.1

theorem grows_exec (hown : Own plan db done t) (hneeds : Needs done stmt)
    (heffect : Effect t.now t.vars ((store plan).seen db t) stmt v' ws) (c : Coordinate) :
    Grows (((store plan).seen db t).watermarks.get? c)
      ((view (store plan).system ((store plan).seen db t) ws).watermarks.get? c) := by
  rcases watermark_view plan ((store plan).seen db t) ws c with hsame | ⟨stamp, hmem, hread⟩
  · rw [hsame]
    exact .refl _
  · rw [hread]
    rcases watermark_written heffect hmem with rfl | ⟨key, row, -, -, rfl, hnewer⟩
    · obtain ⟨key, row, hguard, hinsert, hc, rfl⟩ := hneeds
      have hskipped := hown.known _ hinsert rfl
      obtain ⟨-, hseen⟩ := (hown.known _ hguard c hc).2 hskipped
      rw [hseen]
      exact .refl _
    · intro mark hmark
      exact ⟨_, rfl, (hnewer mark hmark).le⟩

theorem own_exec (hown : Own plan db done t) (hneeds : Needs done stmt)
    (heffect : Effect t.now t.vars ((store plan).seen db t) stmt v' ws) :
    Own plan db (done ++ [stmt])
      (t.after rest (stmt.locks t.now t.vars ((store plan).seen db t)) v' ws) where
  known k hk := by
    rcases List.mem_append.mp hk with hk | hk
    · exact known_old hown hneeds heffect hk
    · rw [List.mem_singleton.mp hk]
      exact known_new heffect hown.grows
  one key row key' row' h h' := by
    rcases List.mem_append.mp h with hold | hnew <;> rcases List.mem_append.mp h' with hold' | hnew'
    · exact hown.one key row key' row' hold hold'
    · rw [← List.mem_singleton.mp hnew'] at hneeds
      exact absurd hold (hneeds.1 key row)
    · rw [← List.mem_singleton.mp hnew] at hneeds
      exact absurd hold' (hneeds.1 key' row')
    · have heq := (List.mem_singleton.mp hnew).trans (List.mem_singleton.mp hnew').symm
      simpa using heq
  inserted key row h := by
    rcases List.mem_append.mp h with h | h
    · obtain ⟨hlive, hguard, hskipped⟩ := hown.inserted key row h
      refine ⟨hlive, List.mem_append_left _ hguard, (skipped_kept heffect ?_).trans hskipped⟩
      rintro key' row' rfl
      exact hneeds.1 key row hguard
    · obtain ⟨-, -, ⟨rollback, rfl, hskipped, rfl⟩ | ⟨communityId, e, rfl, -⟩⟩ :=
        inserted_written heffect h
      · exact ⟨hneeds.2, List.mem_append_left _ hneeds.1, hskipped⟩
      · exact absurd hneeds id
  retired key row h := by
    rcases List.mem_append.mp h with h | h
    · exact hown.retired key row h
    · obtain ⟨w, how, old, -, -, hrow⟩ := event_written heffect h
      exact retired_conforms hrow.symm
  grows c := by
    rw [Planned.seen_after]
    exact (hown.grows c).trans (grows_exec hown hneeds heffect c)
  marks c stamp h := by
    rcases List.mem_append.mp h with h | h
    · obtain ⟨key, row, hguard, hc⟩ := hown.marks c stamp h
      exact ⟨key, row, List.mem_append_left _ hguard, hc⟩
    · rcases watermark_written heffect h with rfl | ⟨key, row, rfl, hc, -⟩
      · obtain ⟨key, row, hguard, -, hc, -⟩ := hneeds
        exact ⟨key, row, List.mem_append_left _ hguard, hc⟩
      · exact ⟨key, row, List.mem_append_right _ List.mem_cons_self, hc⟩

end Exec

/-! ## The rule -/

theorem inserted_mark (hown : Own plan db done t) {key : EventKey} {row : Row} {c : Coordinate}
    (h : .inserted key row ∈ t.writes) (hc : triggerCoordinate key row = some c) :
    (∀ mark ∈ db.watermarks.get? c, mark < key.stamp) ∧
      ((store plan).seen db t).watermarks.get? c = some key.stamp := by
  obtain ⟨-, hguard, hskipped⟩ := hown.inserted key row h
  exact (hown.known _ hguard c hc).2 hskipped

theorem sound_commit (hsound : Sound db) (hown : Own plan db done t) :
    Sound ((store plan).seen db t) := by
  refine ⟨?_, ?_⟩
  · intro key row c hmem hc
    unfold Planned.seen at hmem
    rw [history_view] at hmem
    rcases List.mem_append.mp hmem with hold | hnew
    · obtain ⟨mark, hmark, hle⟩ := hsound.dominates key row c hold hc
      obtain ⟨mark', hmark', hle'⟩ := hown.grows c mark hmark
      exact ⟨mark', hmark', hle.trans hle'⟩
    · exact ⟨_, (inserted_mark hown (mem_insertions.mp hnew) hc).2, le_refl _⟩
  · intro key row hget hconforms
    rcases event_view plan db t.writes key with ⟨hsame, -⟩ | ⟨row', hmem, hread⟩ | ⟨row', hmem, hread⟩
    · exact hsound.purged key row (hsame.symm.trans hget) hconforms
    · cases hread.symm.trans hget
      rw [hown.retired key row hmem] at hconforms
      cases hconforms
    · cases hread.symm.trans hget
      exact (hown.inserted key row hmem).1

theorem watermark_rule (plan : χ → List Sql) (hordered : ∀ call, Ordered Needs [] (plan call)) :
    PlanRule (store plan) .any (fun _ => True) (fun _ _ _ => True) (fun p => Sound p.db)
      (Own plan) where
  advance _ _ h := h
  refuse _ _ _ h := h
  begin p call _ :=
    ⟨fun _ h => absurd h List.not_mem_nil, fun _ _ _ _ h => absurd h List.not_mem_nil,
      fun _ _ h => absurd h List.not_mem_nil, fun _ _ h => absurd h List.not_mem_nil,
      fun _ => .refl _, fun _ _ h => absurd h List.not_mem_nil⟩
  exec p done k todo t vars ws _ _ _ hown hplan _ hexec :=
    own_exec hown (needs_of_ordered (by rw [← hplan]; exact hordered t.call))
      (effect_of_exec hexec)
  commit p t _ hsound _ hown _ _ _ := sound_commit hsound hown
  ownCommit p t u done _ _ _ _ _ hu ht hlocked hfit _ := own_commit ht hlocked hfit hu

end Rule

/-! ## Calls -/

theorem replacement_ordered {r : Replacement}
    (h : ∀ c ∈ r.watermark, triggerCoordinate r.key r.row = some c) :
    Ordered Needs [] r.plan := by
  have hlive : r.row.deletedAt = none := rfl
  have hstamp : r.key.stamp = r.event.stamp := by
    simp only [Replacement.key, Event.key, EventKey.stamp, Event.stamp]
  unfold Replacement.plan
  cases hmark : r.watermark with
  | none => simp [Ordered, Needs, hlive]
  | some c =>
    rw [hmark] at h
    simp only [Option.toList_some, List.map_cons, List.map_nil, List.cons_append, List.nil_append,
      Ordered, Needs, List.mem_cons, List.not_mem_nil, reduceCtorEq, or_false, false_or,
      not_false_eq_true, implies_true, and_true, true_and, hlive]
    exact ⟨r.key, r.row, rfl, rfl, h c rfl, hstamp⟩

theorem parameterized_mark (communityId : CommunityId) (e : Event) (dTag : String)
    (channelId : Option Uuid) :
    let r := replaceParameterizedEvent communityId e dTag channelId
    ∀ c ∈ r.watermark, triggerCoordinate r.key r.row = some c := by
  intro r c hc
  simp only [r, replaceParameterizedEvent] at hc
  split_ifs at hc with hnip
  · cases hc
    have hconforms : conforms r.row = true :=
      (conforms_eq_isNipRs e channelId dTag none).trans hnip
    rw [triggerCoordinate, if_pos hconforms]
    rfl
  · cases hc

inductive Call where
  | replaceAddressableEvent (communityId : CommunityId) (e : Event) (channelId : Option Uuid)
  | replaceParameterizedEvent (communityId : CommunityId) (e : Event) (dTag : String)
      (channelId : Option Uuid)
  | insertEvent (communityId : CommunityId) (e : Event) (channelId : Option Uuid)
  | softDeleteByCoordinate (c : Coordinate) (deletionCreatedAtSecs : Int)
  | softDeleteEvent (communityId : CommunityId) (id : EventId)

def Call.plan : Call → List Sql
  | replaceAddressableEvent communityId e channelId =>
    (Events.replaceAddressableEvent communityId e channelId).plan
  | replaceParameterizedEvent communityId e dTag channelId =>
    (Events.replaceParameterizedEvent communityId e dTag channelId).plan
  | insertEvent communityId e channelId => Events.insertEvent communityId e channelId
  | softDeleteByCoordinate c secs => Events.softDeleteByCoordinate c secs
  | softDeleteEvent communityId id => Events.softDeleteEvent communityId id

theorem plan_ordered (call : Call) : Ordered Needs [] call.plan := by
  cases call with
  | replaceAddressableEvent communityId e channelId =>
    exact replacement_ordered (by simp [Events.replaceAddressableEvent])
  | replaceParameterizedEvent communityId e dTag channelId =>
    exact replacement_ordered (parameterized_mark communityId e dTag channelId)
  | insertEvent communityId e channelId =>
    simp [Call.plan, Events.insertEvent, Ordered, Needs]
  | softDeleteByCoordinate c secs =>
    simp [Call.plan, Events.softDeleteByCoordinate, Ordered, Needs]
  | softDeleteEvent communityId id =>
    simp [Call.plan, Events.softDeleteEvent, Ordered, Needs]

def Call.row : Call → Option (EventKey × Row)
  | replaceAddressableEvent communityId e channelId =>
    let r := Events.replaceAddressableEvent communityId e channelId
    some (r.key, r.row)
  | replaceParameterizedEvent communityId e dTag channelId =>
    let r := Events.replaceParameterizedEvent communityId e dTag channelId
    some (r.key, r.row)
  | insertEvent communityId e channelId =>
    some (e.key communityId, ⟨e, channelId, extractDTag e, none⟩)
  | softDeleteByCoordinate _ _ | softDeleteEvent _ _ => none

theorem row_of_guard {call : Call} {key : EventKey} {row : Row}
    (h : .guardWatermark key row ∈ call.plan) : call.row = some (key, row) := by
  have hreplacement (r : Replacement) (h : .guardWatermark key row ∈ r.plan) :
      (r.key, r.row) = (key, row) := by
    simp only [Replacement.plan, List.mem_append, List.mem_cons, List.mem_map, reduceCtorEq,
      List.not_mem_nil, or_false, false_or, and_false, exists_false, Sql.guardWatermark.injEq] at h
    rw [h.1, h.2]
  cases call with
  | replaceAddressableEvent communityId e channelId =>
    exact congrArg some (hreplacement _ h)
  | replaceParameterizedEvent communityId e dTag channelId =>
    exact congrArg some (hreplacement _ h)
  | insertEvent communityId e channelId =>
    simp only [Call.plan, Events.insertEvent, List.mem_cons, reduceCtorEq, List.not_mem_nil,
      or_false, false_or, Sql.guardWatermark.injEq] at h
    simp only [Call.row, h.1, h.2]
  | softDeleteByCoordinate c secs => simp [Call.plan, Events.softDeleteByCoordinate] at h
  | softDeleteEvent communityId id => simp [Call.plan, Events.softDeleteEvent] at h

/-! ## Runs -/

abbrev EventWorld := World Call Db Lock Vars Write DbError

abbrev eventStore : Planned Call Sql Db Lock Vars Write DbError := store Call.plan

structure StepLaws (s : EventWorld) (action : Action Call DbError) (s' : EventWorld) : Prop where
  /-- No watermark goes back. -/
  grows : ∀ c, Grows (s.pub.db.watermarks.get? c) (s'.pub.db.watermarks.get? c)
  /-- A conforming event is accepted only above its watermark. -/
  above : ∃ new, s'.pub.db.history = s.pub.db.history ++ new ∧
    ∀ key row c, (key, row) ∈ new → triggerCoordinate key row = some c →
      ∀ mark ∈ s.pub.db.watermarks.get? c, mark < key.stamp
  /-- Only the commit of a conforming event moves a watermark, and only its own. -/
  moved : ∀ c, s'.pub.db.watermarks.get? c ≠ s.pub.db.watermarks.get? c →
    ∃ tx t key row, action = .commit tx ∧ s.txs.get? tx = some t ∧
      t.call.row = some (key, row) ∧ triggerCoordinate key row = some c

theorem stepLaws_of_kept {s s' : EventWorld} {action : Action Call DbError}
    (hkept : Kept (fun p => Sound p.db) (Open eventStore (Own Call.plan)) s)
    (hstep : step eventStore.system s action = some s') : StepLaws s action s' := by
  by_cases hcommit : ∃ tx, action = .commit tx
  · obtain ⟨tx, rfl⟩ := hcommit
    obtain ⟨t, hopen, hrest, hpub⟩ := step_commit hstep
    obtain ⟨-, -, hown⟩ := (hkept.own tx t hopen).finished hrest
    have hdb : s'.pub.db = eventStore.seen s.pub.db t := by rw [hpub]; rfl
    refine ⟨?_, ⟨insertions t.writes, ?_, ?_⟩, ?_⟩
    · rw [hdb]
      exact hown.grows
    · rw [hdb]
      exact history_view _ _ _
    · intro key row c hmem hc
      exact (inserted_mark hown (mem_insertions.mp hmem) hc).1
    · intro c hmoved
      rw [hdb] at hmoved
      rcases watermark_view Call.plan s.pub.db t.writes c with hsame | ⟨stamp, hmem, -⟩
      · exact absurd hsame hmoved
      · obtain ⟨key, row, hguard, hc⟩ := hown.marks c stamp hmem
        exact ⟨tx, t, key, row, rfl, hopen, row_of_guard hguard, hc⟩
  · have hdb : s'.pub.db = s.pub.db :=
      step_db hstep fun tx heq => hcommit ⟨tx, heq⟩
    refine ⟨?_, ⟨[], by simp [hdb], by simp⟩, ?_⟩
    · rw [hdb]
      exact fun c => .refl _
    · intro c hmoved
      rw [hdb] at hmoved
      exact absurd rfl hmoved

/-! ## Events that do not conform -/

def Unmarked : Sql → Prop
  | .readWatermark _ => False
  | .guardWatermark key row => triggerCoordinate key row = none
  | .readMembers _ => False
  | _ => True

theorem find_congr {db db' : Db} (h : db.events = db'.events) (w : Where) :
    db.find w = db'.find w := by
  unfold Db.find
  rw [h]

theorem exec_congr {db db' : Db} (h : db.events = db'.events) {stmt : Sql}
    (hstmt : Unmarked stmt) (now : Int) (v : Vars) :
    stmt.exec now v db = stmt.exec now v db' := by
  cases stmt with
  | readWatermark c => exact absurd hstmt id
  | readMembers communityId => exact absurd hstmt id
  | guardWatermark key row =>
    have hnone : triggerCoordinate key row = none := hstmt
    simp only [Sql.exec, Events.guardWatermark, hnone]
  | readHead a => simp only [Sql.exec, Db.head, find_congr h]
  | findRows w ifHead => simp only [Sql.exec, find_congr h]
  | retireRows w how => simp only [Sql.exec, h]
  | insertRow key row rollback => simp only [Sql.exec, h]
  | insertSnapshot communityId => simp only [Sql.exec, h]
  | _ => rfl

theorem events_congr {db db' : Db} (h : db.events = db'.events) (ws : List Write) :
    (view eventStore.system db ws).events = (view eventStore.system db' ws).events := by
  induction ws generalizing db db' with
  | nil => exact h
  | cons w ws ih =>
    refine @ih (Db.apply db w) (Db.apply db' w) ?_
    cases w with
    | event key row => cases row <;> simp only [Db.apply, h]
    | member key row => cases row <;> simp only [Db.apply, h]
    | _ => simp only [Db.apply, h]

theorem alone_congr {db db' : Db} (h : db.events = db'.events) {stmts : List Sql}
    (hstmts : ∀ stmt ∈ stmts, Unmarked stmt) (now : Int) (v : Vars) (ws : List Write) :
    alone eventStore.system db (stmts.map (eventStore.statement now)) v ws =
      alone eventStore.system db' (stmts.map (eventStore.statement now)) v ws := by
  induction stmts generalizing v ws with
  | nil => rfl
  | cons stmt stmts ih =>
    have hexec : (eventStore.statement now stmt).exec v (view eventStore.system db ws) =
        (eventStore.statement now stmt).exec v (view eventStore.system db' ws) :=
      exec_congr (events_congr h ws) (hstmts stmt List.mem_cons_self) now v
    simp only [List.map_cons, alone, hexec]
    cases (eventStore.statement now stmt).exec v (view eventStore.system db' ws) with
    | ok result => exact ih (fun s hs => hstmts s (List.mem_cons_of_mem _ hs)) _ _
    | error error => rfl

theorem outcome_of_nonconforming {communityId : CommunityId} {e : Event} {dTag : String}
    (channelId : Option Uuid) (h : isNipRs e dTag = false) (db : Db)
    (marks : Table Coordinate Stamp) (now : Int) :
    eventStore.outcome { db with watermarks := marks }
        (.replaceParameterizedEvent communityId e dTag channelId) now =
      eventStore.outcome db (.replaceParameterizedEvent communityId e dTag channelId) now := by
  have hprogram (call : Call) :
      eventStore.system.program call now = call.plan.map (eventStore.statement now) := rfl
  unfold Planned.outcome
  rw [hprogram]
  have hsame : ({ db with watermarks := marks } : Db).events = db.events := rfl
  refine alone_congr hsame ?_ now _ _
  have hnone : triggerCoordinate (e.key communityId) ⟨e, channelId, some dTag, none⟩ = none := by
    rw [triggerCoordinate, conforms_eq_isNipRs, h]
    rfl
  intro stmt hstmt
  simp only [Call.plan, Events.replaceParameterizedEvent, Replacement.plan, h, Bool.false_eq_true,
    if_false, Option.toList_none, List.map_nil, List.append_nil, List.mem_append, List.mem_cons,
    List.not_mem_nil, or_false] at hstmt
  rcases hstmt with (rfl | rfl | rfl) | rfl | rfl | rfl | rfl | rfl
  all_goals trivial

/-! ## The laws -/

/-- The Rust classification is that of the triggers. In every run the watermarks dominate all
conforming events that were ever accepted, no soft-deleted conforming row is stored, no watermark
goes back, a conforming event is accepted only above its watermark, and only conforming events move
one. An event that does not conform is judged by the live head alone. -/
theorem nip_rs_watermark_laws {start : Db} {clock : Int} {as : List (Action Call DbError)}
    {s : EventWorld} (hstart : Sound start)
    (hrun : run (step eventStore.system) (World.init clock start) as = some s) :
    (∀ e channelId dTag deletedAt,
      conforms ⟨e, channelId, some dTag, deletedAt⟩ = isNipRs e dTag) ∧
      Sound s.pub.db ∧
      (∀ action s', step eventStore.system s action = some s' → StepLaws s action s') ∧
      ∀ communityId e dTag channelId db marks now, isNipRs e dTag = false →
        eventStore.outcome { db with watermarks := marks }
            (.replaceParameterizedEvent communityId e dTag channelId) now =
          eventStore.outcome db (.replaceParameterizedEvent communityId e dTag channelId) now := by
  have hrule := (watermark_rule Call.plan plan_ordered).always (disciplined Call.plan)
  have hkept := run_keeps hrule (kept_init clock hstart) hrun
  refine ⟨conforms_eq_isNipRs, hkept.inv, ?_, ?_⟩
  · intro action s' hstep
    exact stepLaws_of_kept hkept hstep
  · intro communityId e dTag channelId db marks now hnot
    exact outcome_of_nonconforming channelId hnot db marks now

def readStateCoordinate : Coordinate := ⟨1, kindReadState, 7, readStateTag⟩

def publishReadState (id : EventId) (createdAt : Nat) (h : createdAt < 2 ^ 63) : Call :=
  .replaceParameterizedEvent 1 (readState id createdAt h) readStateTag none

def readStateReplay : List (Action Call DbError) :=
  [Action.begin (publishReadState 3 100 time100_lt)] ++ List.replicate 10 (Action.exec 0) ++
    [Action.commit 0, .begin (Call.softDeleteByCoordinate readStateCoordinate 100)] ++
    List.replicate 3 (Action.exec 1) ++
    [Action.commit 1, .begin (publishReadState 3 100 time100_lt)] ++
    List.replicate 5 (Action.exec 2)

theorem nip_rs_watermark_laws_on_replay :
    ∃ s, run (step eventStore.system) (World.init 0 .empty) readStateReplay = some s ∧
      s.pub.db.watermarks.get? readStateCoordinate = some ⟨100, 3⟩ ∧
      s.pub.db.events.toList = [] ∧ Sound s.pub.db := by
  have hrun : ((run (step eventStore.system) (World.init 0 .empty) readStateReplay).any fun s =>
      s.pub.db.watermarks.get? readStateCoordinate == some ⟨100, 3⟩ &&
        s.pub.db.events.toList.isEmpty) = true := by
    decide +kernel
  have hstart : Sound .empty := by
    refine ⟨?_, ?_⟩
    · intro key row c hmem
      cases hmem
    · intro key row hget
      cases hget
  obtain ⟨s, hs, hfacts⟩ := (Option.any_eq_true _ _).mp hrun
  simp only [Bool.and_eq_true, beq_iff_eq, List.isEmpty_iff] at hfacts
  exact ⟨s, hs, hfacts.1, hfacts.2, (nip_rs_watermark_laws hstart hs).2.1⟩

/-- An event on the coordinate without the `t` tag. -/
def untagged : Event :=
  ⟨5, 7, 50, kindReadState, [⟨"d", [readStateTag]⟩], "", by decide⟩

def untaggedAfterDeletion : List (Action Call DbError) :=
  [Action.begin (publishReadState 3 100 time100_lt)] ++ List.replicate 10 (Action.exec 0) ++
    [Action.commit 0, .begin (Call.softDeleteByCoordinate readStateCoordinate 100)] ++
    List.replicate 3 (Action.exec 1) ++
    [Action.commit 1, .begin (Call.replaceParameterizedEvent 1 untagged readStateTag none)] ++
    List.replicate 8 (Action.exec 2)

theorem nonconforming_event_passes_below_watermark :
    ∃ s s', run (step eventStore.system) (World.init 0 .empty) untaggedAfterDeletion = some s ∧
      step eventStore.system s (.commit 2) = some s' ∧
      s.pub.db.watermarks.get? readStateCoordinate = some ⟨100, 3⟩ ∧
      s.pub.db.head readStateCoordinate.address = none ∧
      s'.pub.db.head readStateCoordinate.address = some untagged.stamp ∧
      untagged.stamp < ⟨100, 3⟩ := by
  have hrun : ((run (step eventStore.system) (World.init 0 .empty)
      untaggedAfterDeletion).any fun s =>
      s.pub.db.watermarks.get? readStateCoordinate == some ⟨100, 3⟩ &&
      s.pub.db.head readStateCoordinate.address == none &&
      (step eventStore.system s (.commit 2)).any fun s' =>
        s'.pub.db.head readStateCoordinate.address == some untagged.stamp) = true := by
    decide +kernel
  obtain ⟨s, hs, hfacts⟩ := (Option.any_eq_true _ _).mp hrun
  simp only [Bool.and_eq_true, beq_iff_eq, Option.any_eq_true] at hfacts
  obtain ⟨⟨hmark, hgone⟩, s', hstep, hhead⟩ := hfacts
  exact ⟨s, s', hs, hstep, hmark, hgone, hhead, by decide +kernel⟩

end Watermarks

end Vingilot.Events
