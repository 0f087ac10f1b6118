import Vingilot.Events.Watermarks

/-!
# Versions that were superseded or deleted

A replayed version is refused because its row is still stored, because a newer one is live, or
because of a NIP-RS watermark. Mesh status rows and rows that a hard delete took leave neither row
nor watermark. When the live head is deleted as well, such a version is accepted again.
-/

namespace Vingilot.Events.Replay

open Machine Transactions

inductive Call (signed : Signed) (c : Coordinate) where
  | replaceParameterizedEvent (e : Event) (channelId : Option Uuid) (hsigned : signed.has e)
      (hkind : e.kind = c.kind) (hpubkey : e.pubkey = c.pubkey)
  | softDeleteByCoordinate (deletionCreatedAtSecs : Int)
  | softDeleteEvent (id : EventId)

variable {signed : Signed} {c : Coordinate}

def Call.plan : Call signed c → List Sql
  | replaceParameterizedEvent e channelId _ _ _ =>
    (Events.replaceParameterizedEvent c.communityId e c.dTag channelId).plan
  | softDeleteByCoordinate secs => Events.softDeleteByCoordinate c secs
  | softDeleteEvent id => Events.softDeleteEvent c.communityId id

abbrev coordinateStore (signed : Signed) (c : Coordinate) :
    Planned (Call signed c) Sql Db Lock Vars Write DbError :=
  store Call.plan

abbrev CallTx (signed : Signed) (c : Coordinate) := EventTx (Call signed c)

abbrev CallPublic (signed : Signed) (c : Coordinate) := Public (Call signed c) Db Vars DbError

/-! ## The condition -/

def Deletes (ws : List Write) : Bool :=
  (ws.any fun | .event _ _ => true | _ => false) && (insertions ws).isEmpty

/-- Every accepted event is a conforming NIP-RS event, or its row is stored and would stay stored
when it is soft-deleted. -/
def AllStay (db : Db) : Prop :=
  ∀ x ∈ db.history, conforms x.2 = true ∨ ((db.events.get? x.1).any fun row =>
    row.deletedAt.isSome || !purgedAsMeshStatus row) = true

instance (db : Db) : Decidable (AllStay db) :=
  inferInstanceAs (Decidable (∀ x ∈ db.history, _ ∨ _))

def versionsStay (signed : Signed) (c : Coordinate) :
    PlanGuard (Call signed c) Sql Db Lock Vars Write DbError where
  exec _ _ _ := True
  commit p t := Deletes t.writes = true → AllStay p.db

/-! ## What an open transaction knows -/

def Needs (a : Address) (done : List Sql) : Sql → Prop
  | .readHead a' => a' = a ∧ .lockAddress a ∈ done ∧ Silent done ∧
    (∀ a', .readHead a' ∉ done) ∧ (∀ w ifHead, .findRows w ifHead ∉ done) ∧
    ∀ stamp, .checkStale stamp ∉ done
  | .checkStale _ => .readHead a ∈ done
  | .findRows w _ => Silent done ∧ (∀ w ifHead, .findRows w ifHead ∉ done) ∧
    (w = .address a → .readHead a ∈ done)
  | .retireRows w _ => Silent done ∧ ∃ ifHead, .findRows w ifHead ∈ done
  | .insertRow key _ _ => .lockAddress a ∈ done ∧ .readHead a ∈ done ∧
    .checkStale key.stamp ∈ done ∧ (∃ how, .retireRows (.address a) how ∈ done) ∧
    ∀ w how, .retireRows w how ∈ done → w = .address a
  | .insertSnapshot _ => False
  | _ => True

structure Read (db : Db) (a : Address) (existing : Option Stamp) : Prop where
  live : ∀ key row, LiveAt db a key row → ∃ top ∈ existing, key.stamp ≤ top
  accepted : ∀ key row, (key, row) ∈ db.history → conforms row = false →
    (db.events.get? key).isSome = true ∨ ∃ top ∈ existing, key.stamp ≤ top

structure Own (a : Address) (db : Db) (done : List Sql) (t : CallTx signed c) : Prop where
  lock : .lockAddress a ∈ done → (.advisory a.lockKey, .exclusive) ∈ t.held
  locked : .readHead a ∈ done → .lockAddress a ∈ done
  read : .readHead a ∈ done → Read db a t.vars.existing
  stale : ∀ stamp, .checkStale stamp ∈ done → ∀ top ∈ t.vars.existing, top < stamp
  found : ∀ ifHead, .findRows (.address a) ifHead ∈ done →
    .readHead a ∈ done ∧ ∀ key row, LiveAt db a key row → key ∈ t.vars.found
  retired : ∀ how, .retireRows (.address a) how ∈ done →
    .readHead a ∈ done ∧ ∀ key row, LiveAt db a key row → ∃ row', .event key row' ∈ t.writes
  events : ∀ key row', .event key row' ∈ t.writes → ∃ w how old, .retireRows w how ∈ done ∧
    db.events.get? key = some old ∧ w.has key old = true ∧ row' = how.apply old t.now
  inserted : ∀ key row, .inserted key row ∈ t.writes → db.events.get? key = none ∧
    (∃ rollback, .insertRow key row rollback ∈ done) ∧ .readHead a ∈ done ∧
    .checkStale key.stamp ∈ done ∧ ∃ how, .retireRows (.address a) how ∈ done
  rolled : ∀ key row, .insertRow key row true ∈ done → .inserted key row ∈ t.writes
  silent : Silent done → t.writes = []

/-! ## What is kept -/

structure Inv (signed : Signed) (c : Coordinate) (db : Db) : Prop where
  origin : ∀ key row, (key, row) ∈ db.history → ∃ e channelId, signed.has e ∧
    e.kind = c.kind ∧ e.pubkey = c.pubkey ∧ key = e.key c.communityId ∧
    row = ⟨e, channelId, some c.dTag, none⟩
  stored : ∀ key row, db.events.get? key = some row →
    ∃ row₀, (key, row₀) ∈ db.history ∧ row = { row₀ with deletedAt := row.deletedAt }
  bounded : ∀ key row, (key, row) ∈ db.history → conforms row = false →
    (db.events.get? key).isSome = true ∨ ∃ key' row', LiveAt db c.address key' row' ∧
      key.stamp ≤ key'.stamp
  one : ∀ key row key' row', LiveAt db c.address key row → LiveAt db c.address key' row' →
    key = key'

/-! ## Plans -/

theorem replacement_ordered (r : Replacement) : Ordered (Needs r.address) [] r.plan := by
  have hstamp : r.key.stamp = r.event.stamp := by
    simp only [Replacement.key, Event.key, EventKey.stamp, Event.stamp]
  unfold Replacement.plan
  cases r.watermark <;> simp [Ordered, Needs, Silent, isWriter, hstamp]

theorem address_eq {e : Event} (hkind : e.kind = c.kind) (hpubkey : e.pubkey = c.pubkey)
    (channelId : Option Uuid) :
    (Events.replaceParameterizedEvent c.communityId e c.dTag channelId).address = c.address := by
  simp [Events.replaceParameterizedEvent, Coordinate.address, hkind, hpubkey]

theorem plan_ordered (call : Call signed c) : Ordered (Needs c.address) [] call.plan := by
  cases call with
  | replaceParameterizedEvent e channelId hsigned hkind hpubkey =>
    rw [← address_eq hkind hpubkey channelId]
    exact replacement_ordered _
  | softDeleteByCoordinate secs =>
    simp [Call.plan, Events.softDeleteByCoordinate, Ordered, Needs, Silent, isWriter]
  | softDeleteEvent id =>
    simp [Call.plan, Events.softDeleteEvent, Ordered, Needs, Silent, isWriter]

theorem marks_ordered (call : Call signed c) : Ordered Watermarks.Needs [] call.plan := by
  cases call with
  | replaceParameterizedEvent e channelId hsigned hkind hpubkey =>
    exact Watermarks.replacement_ordered
      (Watermarks.parameterized_mark c.communityId e c.dTag channelId)
  | softDeleteByCoordinate secs =>
    simp [Call.plan, Events.softDeleteByCoordinate, Ordered, Watermarks.Needs]
  | softDeleteEvent id =>
    simp [Call.plan, Events.softDeleteEvent, Ordered, Watermarks.Needs]

variable {call : Call signed c} {key : EventKey} {row : Row} {rollback : Bool}

theorem insert_of_mem (h : .insertRow key row rollback ∈ call.plan) :
    ∃ e channelId, signed.has e ∧ e.kind = c.kind ∧ e.pubkey = c.pubkey ∧
      key = e.key c.communityId ∧ row = ⟨e, channelId, some c.dTag, none⟩ := by
  cases call with
  | replaceParameterizedEvent e channelId hsigned hkind hpubkey =>
    simp only [Call.plan, Replacement.plan, List.mem_append, List.mem_cons, List.mem_map,
      reduceCtorEq, List.not_mem_nil, or_false, false_or, and_false, exists_false,
      Sql.insertRow.injEq] at h
    exact ⟨e, channelId, hsigned, hkind, hpubkey, h.1, h.2.1⟩
  | softDeleteByCoordinate secs => simp [Call.plan, Events.softDeleteByCoordinate] at h
  | softDeleteEvent id => simp [Call.plan, Events.softDeleteEvent] at h

theorem insert_of_hard {w : Where} (h : .retireRows w .hard ∈ call.plan) :
    ∃ key row, .insertRow key row true ∈ call.plan := by
  cases call with
  | replaceParameterizedEvent e channelId hsigned hkind hpubkey =>
    exact ⟨_, _, by simp [Call.plan, Replacement.plan]; exact ⟨rfl, rfl⟩⟩
  | softDeleteByCoordinate secs => simp [Call.plan, Events.softDeleteByCoordinate] at h
  | softDeleteEvent id => simp [Call.plan, Events.softDeleteEvent] at h

theorem has_of_insert (h : .insertRow key row rollback ∈ call.plan) :
    (Where.address c.address).has key row = true := by
  obtain ⟨e, channelId, -, hkind, hpubkey, rfl, rfl⟩ := insert_of_mem h
  simp [Where.has, Address.has, Coordinate.address, Event.key, hkind, hpubkey]

theorem retires_address (h : .insertRow key row rollback ∈ call.plan) {w : Where} {how : Retire}
    (hretire : .retireRows w how ∈ call.plan) : w = .address c.address := by
  cases call with
  | replaceParameterizedEvent e channelId hsigned hkind hpubkey =>
    simp only [Call.plan, Replacement.plan, List.mem_append, List.mem_cons, List.mem_map,
      reduceCtorEq, List.not_mem_nil, or_false, false_or, and_false, exists_false,
      Sql.retireRows.injEq] at hretire
    rw [hretire.1, address_eq hkind hpubkey channelId]
  | softDeleteByCoordinate secs => simp [Call.plan, Events.softDeleteByCoordinate] at h
  | softDeleteEvent id => simp [Call.plan, Events.softDeleteEvent] at h

variable {row' : Row}

theorem insert_unique {key' : EventKey} {rollback' : Bool}
    (h : .insertRow key row rollback ∈ call.plan) (h' : .insertRow key' row' rollback' ∈ call.plan) :
    key = key' := by
  cases call with
  | replaceParameterizedEvent e channelId hsigned hkind hpubkey =>
    simp only [Call.plan, Replacement.plan, List.mem_append, List.mem_cons, List.mem_map,
      reduceCtorEq, List.not_mem_nil, or_false, false_or, and_false, exists_false,
      Sql.insertRow.injEq] at h h'
    rw [h.1, h'.1]
  | softDeleteByCoordinate secs => simp [Call.plan, Events.softDeleteByCoordinate] at h
  | softDeleteEvent id => simp [Call.plan, Events.softDeleteEvent] at h

/-! ## The transaction's own statements -/

section Exec

variable {a : Address} {db seen : Db} {done : List Sql} {t : CallTx signed c} {stmt : Sql}
  {now : Int} {v v' : Vars} {ws : List Write} {rest : List (Statement Db Lock Vars Write DbError)}
  {locks : List (Lock × Mode)}

theorem seen_of_silent (hown : Own a db done t) (h : Silent done) :
    (coordinateStore signed c).seen db t = db := by
  unfold Planned.seen
  rw [hown.silent h]
  rfl

theorem read_head (hinv : Inv signed c db) : Read db c.address (db.head c.address) := by
  have hlive : ∀ key row, LiveAt db c.address key row →
      ∃ top ∈ db.head c.address, key.stamp ≤ top := by
    intro key row hlive
    cases htop : db.head c.address with
    | none =>
      have hmem := mem_find.mpr hlive
      rw [head_none htop] at hmem
      cases hmem
    | some top => exact ⟨top, rfl, le_head htop hlive⟩
  refine ⟨hlive, ?_⟩
  intro key row hmem hnot
  refine (hinv.bounded key row hmem hnot).imp id ?_
  rintro ⟨key', row', hlive', hle⟩
  obtain ⟨top, htop, hle'⟩ := hlive key' row' hlive'
  exact ⟨top, htop, hle.trans hle'⟩

theorem read_exec (hinv : Inv signed c db) (hown : Own c.address db done t)
    (hneeds : Needs c.address done stmt)
    (heffect : Effect t.now t.vars ((coordinateStore signed c).seen db t) stmt v' ws)
    (h : .readHead c.address ∈ done ++ [stmt]) : Read db c.address v'.existing := by
  rcases List.mem_append.mp h with hold | hnew
  · rw [existing_kept heffect]
    · exact hown.read hold
    · rintro a rfl
      exact hneeds.2.2.2.1 c.address hold
  · obtain rfl := List.mem_singleton.mp hnew
    have hsame := seen_of_silent hown hneeds.2.2.1
    cases heffect
    rw [hsame]
    exact read_head hinv

theorem stale_exec (hown : Own a db done t) (hneeds : Needs a done stmt)
    (heffect : Effect t.now t.vars seen stmt v' ws) {stamp : Stamp}
    (h : .checkStale stamp ∈ done ++ [stmt]) : ∀ top ∈ v'.existing, top < stamp := by
  rcases List.mem_append.mp h with hold | hnew
  · rw [existing_kept heffect]
    · exact hown.stale stamp hold
    · rintro a rfl
      exact hneeds.2.2.2.2.2 stamp hold
  · obtain rfl := List.mem_singleton.mp hnew
    cases heffect with
    | checkStale hhead hmark => exact hhead

theorem found_exec (hown : Own a db done t) (hneeds : Needs a done stmt)
    (heffect : Effect t.now t.vars ((coordinateStore signed c).seen db t) stmt v' ws)
    {ifHead : Bool} (h : .findRows (.address a) ifHead ∈ done ++ [stmt]) :
    .readHead a ∈ done ∧ ∀ key row, LiveAt db a key row → key ∈ v'.found := by
  rcases List.mem_append.mp h with hold | hnew
  · rw [found_kept heffect]
    · exact hown.found ifHead hold
    · rintro w ifHead' rfl
      exact hneeds.2.1 _ _ hold
  · obtain rfl := List.mem_singleton.mp hnew
    obtain ⟨hsilent, -, hread⟩ := hneeds
    have hsame := seen_of_silent hown hsilent
    refine ⟨hread rfl, ?_⟩
    intro key row hlive
    cases heffect
    simp only [hsame]
    split_ifs with hskip
    · obtain ⟨top, htop, -⟩ := (hown.read (hread rfl)).live key row hlive
      simp only [Bool.and_eq_true, Option.isNone_iff_eq_none] at hskip
      rw [hskip.2] at htop
      cases htop
    · exact List.mem_map.mpr ⟨(key, row), mem_find.mpr hlive, rfl⟩

theorem retired_exec (hown : Own a db done t) (hneeds : Needs a done stmt)
    (heffect : Effect t.now t.vars ((coordinateStore signed c).seen db t) stmt v' ws)
    {how : Retire} (h : .retireRows (.address a) how ∈ done ++ [stmt]) :
    .readHead a ∈ done ∧ ∀ key row, LiveAt db a key row →
      ∃ row', .event key row' ∈ t.writes ++ ws := by
  rcases List.mem_append.mp h with h | h
  · obtain ⟨hread, hretired⟩ := hown.retired how h
    refine ⟨hread, ?_⟩
    intro key row hlive
    obtain ⟨row', hmem⟩ := hretired key row hlive
    exact ⟨row', List.mem_append_left _ hmem⟩
  · obtain rfl := List.mem_singleton.mp h
    obtain ⟨hsilent, ifHead, hfind⟩ := hneeds
    obtain ⟨hread, hfound⟩ := hown.found ifHead hfind
    have hsame := seen_of_silent hown hsilent
    refine ⟨hread, ?_⟩
    intro key row hlive
    cases heffect
    rw [hsame]
    refine ⟨_, List.mem_append_right _ (List.mem_map.mpr ⟨(key, row), ?_, rfl⟩)⟩
    exact mem_retiredRows.mpr ⟨hfound key row hlive, hlive.1, hlive.2⟩

theorem events_exec (hown : Own a db done t) (hneeds : Needs a done stmt)
    (heffect : Effect t.now t.vars ((coordinateStore signed c).seen db t) stmt v' ws)
    {row' : Option Row} (h : .event key row' ∈ ws) :
    ∃ w how old, .retireRows w how ∈ done ++ [stmt] ∧ db.events.get? key = some old ∧
      w.has key old = true ∧ row' = how.apply old t.now := by
  obtain ⟨w, how, old, rfl, hmem, hrow⟩ := event_written heffect h
  obtain ⟨-, hget, hhas⟩ := mem_retiredRows.mp hmem
  rw [seen_of_silent hown hneeds.1] at hget
  exact ⟨w, how, old, List.mem_append_right _ List.mem_cons_self, hget, hhas, hrow⟩

theorem free_of_seen (hown : Own a db done t) (hread : .readHead a ∈ done)
    (hstale : .checkStale key.stamp ∈ done)
    (haddress : ∀ w how, .retireRows w how ∈ done → w = .address a)
    (hfree : ((coordinateStore signed c).seen db t).events.get? key = none) :
    db.events.get? key = none := by
  rcases event_view Call.plan db t.writes key with
    ⟨hsame, -⟩ | ⟨row', hmem, -⟩ | ⟨row, -, hget⟩
  · exact hsame.symm.trans hfree
  · obtain ⟨w, how, old, hretire, hold, hhas, -⟩ := hown.events key row' hmem
    rw [haddress w how hretire] at hhas
    obtain ⟨top, htop, hle⟩ := (hown.read hread).live key old ⟨hold, hhas⟩
    exact absurd (hown.stale _ hstale top htop) (not_lt.mpr hle)
  · cases hget.symm.trans hfree

theorem inserted_exec (hown : Own a db done t) (hneeds : Needs a done stmt)
    (heffect : Effect t.now t.vars ((coordinateStore signed c).seen db t) stmt v' ws)
    (h : .inserted key row ∈ ws) :
    db.events.get? key = none ∧ (∃ rollback, stmt = .insertRow key row rollback) ∧
      .readHead a ∈ done ∧ .checkStale key.stamp ∈ done ∧
      ∃ how, .retireRows (.address a) how ∈ done := by
  obtain ⟨hfree, -, ⟨rollback, rfl, -⟩ | ⟨communityId, e, rfl, -⟩⟩ := inserted_written heffect h
  · obtain ⟨-, hread, hstale, hretire, haddress⟩ := hneeds
    exact ⟨free_of_seen hown hread hstale haddress hfree, ⟨rollback, rfl⟩, hread, hstale, hretire⟩
  · exact absurd hneeds id

theorem rolled_exec (heffect : Effect now v seen stmt v' ws) (h : stmt = .insertRow key row true) :
    .inserted key row ∈ ws := by
  subst h
  cases heffect with
  | insertRow hskipped hfree => exact List.mem_cons_self

theorem own_exec (hinv : Inv signed c db) (hown : Own c.address db done t)
    (hneeds : Needs c.address done stmt)
    (heffect : Effect t.now t.vars ((coordinateStore signed c).seen db t) stmt v' ws) :
    Own c.address db (done ++ [stmt]) (t.after rest
      (stmt.locks t.now t.vars ((coordinateStore signed c).seen db t)) v' ws) where
  lock h := by
    rcases List.mem_append.mp h with h | h
    · exact List.mem_append_left _ (hown.lock h)
    · rw [← List.mem_singleton.mp h]
      exact List.mem_append_right _ List.mem_cons_self
  locked h := by
    rcases List.mem_append.mp h with h | h
    · exact List.mem_append_left _ (hown.locked h)
    · obtain rfl := List.mem_singleton.mp h
      exact List.mem_append_left _ hneeds.2.1
  read h := read_exec hinv hown hneeds heffect h
  stale _ h := stale_exec hown hneeds heffect h
  found _ h := (found_exec hown hneeds heffect h).imp_left (List.mem_append_left _)
  retired _ h := (retired_exec hown hneeds heffect h).imp_left (List.mem_append_left _)
  events key row' h := by
    rcases List.mem_append.mp h with h | h
    · obtain ⟨w, how, old, hretire, hrest⟩ := hown.events key row' h
      exact ⟨w, how, old, List.mem_append_left _ hretire, hrest⟩
    · exact events_exec hown hneeds heffect h
  inserted key row h := by
    rcases List.mem_append.mp h with h | h
    · obtain ⟨hfree, ⟨rollback, hinsert⟩, hread, hstale, how, hretire⟩ := hown.inserted key row h
      exact ⟨hfree, ⟨rollback, List.mem_append_left _ hinsert⟩, List.mem_append_left _ hread,
        List.mem_append_left _ hstale, how, List.mem_append_left _ hretire⟩
    · obtain ⟨hfree, ⟨rollback, rfl⟩, hread, hstale, how, hretire⟩ :=
        inserted_exec hown hneeds heffect h
      exact ⟨hfree, ⟨rollback, List.mem_append_right _ List.mem_cons_self⟩,
        List.mem_append_left _ hread, List.mem_append_left _ hstale, how,
        List.mem_append_left _ hretire⟩
  rolled key row h := by
    rcases List.mem_append.mp h with h | h
    · exact List.mem_append_left _ (hown.rolled key row h)
    · exact List.mem_append_right _ (rolled_exec heffect (List.mem_singleton.mp h).symm)
  silent h := by
    have hdone : Silent done := fun k hk => h k (List.mem_append_left _ hk)
    have hlast := h stmt (List.mem_append_right _ List.mem_cons_self)
    rw [Tx.after_writes, hown.silent hdone, silent_writes heffect hlast]
    rfl

end Exec

/-! ## Commits -/

section Commit

variable {a : Address} {db : Db} {done : List Sql} {t u : CallTx signed c}

theorem live_seen (ht : Own a db done t) {a' : Address}
    (h : LiveAt ((coordinateStore signed c).seen db t) a' key row) :
    LiveAt db a' key row ∨ .inserted key row ∈ t.writes := by
  refine live_view Call.plan ?_ h
  intro left hmem
  obtain ⟨w, how, old, -, -, -, hleft⟩ := ht.events key left hmem
  exact ⟨how, old, t.now, hleft⟩

theorem not_inserted_of_lock (ht : Own a db done t)
    (hfit : conflict t.held u.held = false) (hu : (.advisory a.lockKey, .exclusive) ∈ u.held)
    (key : EventKey) (row : Row) : .inserted key row ∉ t.writes := by
  intro h
  obtain ⟨-, -, hread, -⟩ := ht.inserted key row h
  exact not_exclusive_of_held hfit hu (ht.lock (ht.locked hread))

theorem conforms_of_key (hinv : Inv signed c db) (h : (key, row) ∈ db.history)
    (h' : (key, row') ∈ db.history) : conforms row = conforms row' := by
  obtain ⟨e, _, hsigned, -, -, hkey, rfl⟩ := hinv.origin key row h
  obtain ⟨e', _, hsigned', -, -, hkey', rfl⟩ := hinv.origin key row' h'
  have hid : e.id = e'.id := congrArg EventKey.id (hkey.symm.trans hkey')
  exact conforms_congr (signed.id_injective e e' hsigned hsigned' hid) rfl

theorem stays (hinv : Inv signed c db) (ht : Own a db t.call.plan t)
    (hstay : Deletes t.writes = true → AllStay db) (hnone : ∀ key row, .inserted key row ∉ t.writes)
    (hmem : (key, row) ∈ db.history) (hnot : conforms row = false)
    (hstored : (db.events.get? key).isSome = true) :
    (((coordinateStore signed c).seen db t).events.get? key).isSome = true := by
  rcases event_view Call.plan db t.writes key with
    ⟨hsame, -⟩ | ⟨row', hevent, hread⟩ | ⟨row', hinserted, -⟩
  · exact (congrArg Option.isSome hsame).trans hstored
  · obtain ⟨w, how, old, hretire, hold, hhas, rfl⟩ := ht.events key row' hevent
    have hsoft : how = .soft := by
      cases how with
      | soft => rfl
      | hard =>
        obtain ⟨key', new, hinsert⟩ := insert_of_hard hretire
        exact absurd (ht.rolled key' new hinsert) (hnone key' new)
    have hdeletes : Deletes t.writes = true := by
      simp only [Deletes, insertions_nil hnone, List.isEmpty_nil, Bool.and_true, List.any_eq_true]
      exact ⟨_, hevent, rfl⟩
    have hlive : old.deletedAt = none := by
      simp only [Where.has, Bool.and_eq_true, Option.isNone_iff_eq_none] at hhas
      exact hhas.1
    obtain ⟨row₀, hmem₀, heq⟩ := hinv.stored key old hold
    have hplain : conforms old = false := by
      rw [← hnot, conforms_of_key hinv hmem hmem₀, heq]
      exact conforms_congr rfl rfl
    have hpurged : purgedAsMeshStatus old = false := by
      rcases hstay hdeletes (key, row) hmem with hconforms | hkeeps
      · cases hconforms.symm.trans hnot
      · simpa [hold, hlive] using hkeeps
    refine (congrArg Option.isSome hread).trans ?_
    simp [hsoft, Retire.apply, Row.softDelete, hplain, hpurged]
  · exact absurd hinserted (hnone key row')

theorem events_same (hnone : ∀ key row, .inserted key row ∉ t.writes)
    (h : Deletes t.writes = false) (key : EventKey) :
    ((coordinateStore signed c).seen db t).events.get? key = db.events.get? key := by
  simp only [Deletes, insertions_nil hnone, List.isEmpty_nil, Bool.and_true, List.any_eq_false] at h
  rcases event_view Call.plan db t.writes key with ⟨hsame, -⟩ | ⟨row', hmem, -⟩ | ⟨row', hmem, -⟩
  · exact hsame
  · exact absurd rfl (h _ hmem)
  · exact absurd hmem (hnone key row')

theorem history_seen (hnone : ∀ key row, .inserted key row ∉ t.writes) :
    ((coordinateStore signed c).seen db t).history = db.history := by
  unfold Planned.seen
  rw [history_view, insertions_nil hnone, List.append_nil]

theorem read_commit (hinv : Inv signed c db) (ht : Own a db t.call.plan t)
    (hstay : Deletes t.writes = true → AllStay db)
    (hnone : ∀ key row, .inserted key row ∉ t.writes) {existing : Option Stamp}
    (h : Read db a existing) : Read ((coordinateStore signed c).seen db t) a existing where
  live key row hlive := by
    rcases live_seen ht hlive with hlive | hinserted
    · exact h.live key row hlive
    · exact absurd hinserted (hnone key row)
  accepted key row hmem hnot := by
    rw [history_seen hnone] at hmem
    exact (h.accepted key row hmem hnot).imp (stays hinv ht hstay hnone hmem hnot) id

theorem own_commit (hinv : Inv signed c db) (ht : Own a db t.call.plan t) (hu : Own a db done u)
    (hstay : Deletes t.writes = true → AllStay db) (hlt : (coordinateStore signed c).Locked t)
    (hlu : (coordinateStore signed c).Locked u) (hfit : conflict t.held u.held = false) :
    Own a ((coordinateStore signed c).seen db t) done u := by
  have hnone : .readHead a ∈ done → ∀ key row, .inserted key row ∉ t.writes := by
    intro hread
    exact not_inserted_of_lock ht hfit (hu.lock (hu.locked hread))
  have hlive : .readHead a ∈ done → ∀ key row,
      LiveAt ((coordinateStore signed c).seen db t) a key row → LiveAt db a key row := by
    intro hread key row hlive
    exact (live_seen ht hlive).resolve_right (hnone hread key row)
  have hsame : ∀ key, (.event key, .exclusive) ∈ u.held →
      ((coordinateStore signed c).seen db t).events.get? key = db.events.get? key := by
    intro key hheld
    exact (eventRow Call.plan key).read_spared (spared_of_held hlt hfit hheld)
  refine ⟨hu.lock, hu.locked, ?_, hu.stale, ?_, ?_, ?_, ?_, hu.rolled, hu.silent⟩
  · intro hread
    exact read_commit hinv ht hstay (hnone hread) (hu.read hread)
  · intro ifHead hfind
    obtain ⟨hread, hfound⟩ := hu.found ifHead hfind
    exact ⟨hread, fun key row h => hfound key row (hlive hread key row h)⟩
  · intro how hretire
    obtain ⟨hread, hretired⟩ := hu.retired how hretire
    exact ⟨hread, fun key row h => hretired key row (hlive hread key row h)⟩
  · intro key row' hmem
    obtain ⟨w, how, old, hretire, hold, hrest⟩ := hu.events key row' hmem
    exact ⟨w, how, old, hretire, (hsame key (hlu _ hmem)).trans hold, hrest⟩
  · intro key row hmem
    obtain ⟨hfree, hrest⟩ := hu.inserted key row hmem
    exact ⟨(hsame key (hlu _ hmem)).trans hfree, hrest⟩

theorem inserted_live (ht : Own c.address db t.call.plan t) (h : .inserted key row ∈ t.writes) :
    ∃ row', LiveAt ((coordinateStore signed c).seen db t) c.address key row' := by
  obtain ⟨hfree, -⟩ := ht.inserted key row h
  rcases event_view Call.plan db t.writes key with
    ⟨-, -, hnone⟩ | ⟨row', hmem, -⟩ | ⟨row', hmem, hread⟩
  · exact absurd h (hnone row)
  · obtain ⟨w, how, old, -, hold, -⟩ := ht.events key row' hmem
    cases hfree.symm.trans hold
  · obtain ⟨-, ⟨rollback, hinsert⟩, -⟩ := ht.inserted key row' hmem
    exact ⟨row', hread, has_of_insert hinsert⟩

theorem origin_commit (hinv : Inv signed c db) (ht : Own a db t.call.plan t)
    (h : (key, row) ∈ ((coordinateStore signed c).seen db t).history) :
    ∃ e channelId, signed.has e ∧ e.kind = c.kind ∧ e.pubkey = c.pubkey ∧
      key = e.key c.communityId ∧ row = ⟨e, channelId, some c.dTag, none⟩ := by
  unfold Planned.seen at h
  rw [history_view] at h
  rcases List.mem_append.mp h with hold | hnew
  · exact hinv.origin key row hold
  · obtain ⟨-, ⟨rollback, hinsert⟩, -⟩ := ht.inserted key row (mem_insertions.mp hnew)
    exact insert_of_mem hinsert

theorem stored_commit (hinv : Inv signed c db) (ht : Own a db t.call.plan t)
    (h : ((coordinateStore signed c).seen db t).events.get? key = some row) :
    ∃ row₀, (key, row₀) ∈ ((coordinateStore signed c).seen db t).history ∧
      row = { row₀ with deletedAt := row.deletedAt } := by
  unfold Planned.seen at h ⊢
  rw [history_view]
  rcases event_view Call.plan db t.writes key with
    ⟨hsame, -⟩ | ⟨row', hmem, hread⟩ | ⟨row', hmem, hread⟩
  · obtain ⟨row₀, hmem₀, heq⟩ := hinv.stored key row (hsame.symm.trans h)
    exact ⟨row₀, List.mem_append_left _ hmem₀, heq⟩
  · obtain ⟨w, how, old, -, hold, -, hrow⟩ := ht.events key row' hmem
    obtain ⟨row₀, hmem₀, heq⟩ := hinv.stored key old hold
    refine ⟨row₀, List.mem_append_left _ hmem₀, ?_⟩
    have hretired : how.apply old t.now = some row := hrow.symm.trans (hread.symm.trans h)
    cases how with
    | hard => cases hretired
    | soft =>
      simp only [Retire.apply, Row.softDelete] at hretired
      split_ifs at hretired
      cases hretired
      rw [heq]
  · cases hread.symm.trans h
    obtain ⟨-, ⟨rollback, hinsert⟩, -⟩ := ht.inserted key row hmem
    obtain ⟨e, channelId, -, -, -, -, rfl⟩ := insert_of_mem hinsert
    exact ⟨_, List.mem_append_right _ (mem_insertions.mpr hmem), rfl⟩

theorem bounded_insert (ht : Own c.address db t.call.plan t) {new : EventKey}
    (hnew : .inserted new row' ∈ t.writes) (hmem : (key, row) ∈ db.history)
    (hnot : conforms row = false) :
    (((coordinateStore signed c).seen db t).events.get? key).isSome = true ∨
      key.stamp ≤ new.stamp := by
  obtain ⟨-, ⟨rollback, hinsert⟩, hread, hstale, -⟩ := ht.inserted new row' hnew
  have hbelow : (∃ top ∈ t.vars.existing, key.stamp ≤ top) → key.stamp ≤ new.stamp := by
    rintro ⟨top, htop, hle⟩
    exact hle.trans (ht.stale new.stamp hstale top htop).le
  rcases (ht.read hread).accepted key row hmem hnot with hstored | htop
  · rcases event_view Call.plan db t.writes key with
      ⟨hsame, -⟩ | ⟨retired, hevent, -⟩ | ⟨row'', -, hget⟩
    · exact .inl ((congrArg Option.isSome hsame).trans hstored)
    · obtain ⟨w, how, old, hretire, hold, hhas, -⟩ := ht.events key retired hevent
      rw [retires_address hinsert hretire] at hhas
      exact .inr (hbelow ((ht.read hread).live key old ⟨hold, hhas⟩))
    · exact .inl (congrArg Option.isSome hget)
  · exact .inr (hbelow htop)

theorem bounded_commit (hinv : Inv signed c db) (ht : Own c.address db t.call.plan t)
    (hstay : Deletes t.writes = true → AllStay db)
    (hmem : (key, row) ∈ ((coordinateStore signed c).seen db t).history)
    (hnot : conforms row = false) :
    (((coordinateStore signed c).seen db t).events.get? key).isSome = true ∨
      ∃ key' row', LiveAt ((coordinateStore signed c).seen db t) c.address key' row' ∧
        key.stamp ≤ key'.stamp := by
  by_cases hinsert : ∃ new row', .inserted new row' ∈ t.writes
  · obtain ⟨new, row', hnew⟩ := hinsert
    unfold Planned.seen at hmem
    rw [history_view] at hmem
    rcases List.mem_append.mp hmem with hold | hown
    · refine (bounded_insert ht hnew hold hnot).imp id ?_
      intro hle
      obtain ⟨row'', hlive⟩ := inserted_live ht hnew
      exact ⟨new, row'', hlive, hle⟩
    · obtain ⟨row'', hlive⟩ := inserted_live ht (mem_insertions.mp hown)
      exact .inl (congrArg Option.isSome hlive.1)
  · have hnone : ∀ new row', .inserted new row' ∉ t.writes :=
      fun new row' h => hinsert ⟨new, row', h⟩
    rw [history_seen hnone] at hmem
    cases hdeletes : Deletes t.writes with
    | true =>
      refine .inl (stays hinv ht hstay hnone hmem hnot ?_)
      rcases hstay hdeletes (key, row) hmem with hconforms | hkeeps
      · cases hconforms.symm.trans hnot
      · cases hget : db.events.get? key with
        | none => simp [hget] at hkeeps
        | some old => rfl
    | false =>
      have hsame : ∀ key', ((coordinateStore signed c).seen db t).events.get? key' =
          db.events.get? key' := events_same hnone hdeletes
      rw [hsame]
      refine (hinv.bounded key row hmem hnot).imp id ?_
      rintro ⟨key', row', hlive, hle⟩
      exact ⟨key', row', ⟨(hsame key').trans hlive.1, hlive.2⟩, hle⟩

theorem dead_of_insert (ht : Own a db t.call.plan t) {new : EventKey} {row'' : Row}
    (hnew : .inserted new row'' ∈ t.writes) (hlive : LiveAt db a key row) :
    ¬ LiveAt ((coordinateStore signed c).seen db t) a key row' := by
  rintro ⟨hget, hhas⟩
  obtain ⟨-, -, -, -, how, hretire⟩ := ht.inserted new row'' hnew
  obtain ⟨retired, hevent⟩ := (ht.retired how hretire).2 key row hlive
  rcases event_view Call.plan db t.writes key with
    ⟨-, hnone, -⟩ | ⟨left, hmem, hread⟩ | ⟨row₁, hmem, -⟩
  · exact hnone retired hevent
  · obtain ⟨w, how', old, -, -, -, hrow⟩ := ht.events key left hmem
    have hleft := hread.symm.trans hget
    rw [hrow] at hleft
    exact retired_not_live hleft hhas
  · cases (ht.inserted key row₁ hmem).1.symm.trans hlive.1

theorem one_commit (hinv : Inv signed c db) (ht : Own c.address db t.call.plan t) {key' : EventKey}
    (h : LiveAt ((coordinateStore signed c).seen db t) c.address key row)
    (h' : LiveAt ((coordinateStore signed c).seen db t) c.address key' row') : key = key' := by
  rcases live_seen ht h with hold | hnew <;> rcases live_seen ht h' with hold' | hnew'
  · exact hinv.one key row key' row' hold hold'
  · exact absurd h (dead_of_insert ht hnew' hold)
  · exact absurd h' (dead_of_insert ht hnew hold')
  · obtain ⟨-, ⟨rollback, hinsert⟩, -⟩ := ht.inserted key row hnew
    obtain ⟨-, ⟨rollback', hinsert'⟩, -⟩ := ht.inserted key' row' hnew'
    exact insert_unique hinsert hinsert'

theorem inv_commit (hinv : Inv signed c db) (ht : Own c.address db t.call.plan t)
    (hstay : Deletes t.writes = true → AllStay db) :
    Inv signed c ((coordinateStore signed c).seen db t) where
  origin _ _ h := origin_commit hinv ht h
  stored _ _ h := stored_commit hinv ht h
  bounded _ _ hmem hnot := bounded_commit hinv ht hstay hmem hnot
  one _ _ _ _ h h' := one_commit hinv ht h h'

end Commit

/-! ## The rule -/

theorem fresh_own (a : Address) (db : Db) (call : Call signed c) (now : Int) :
    Own a db [] (fresh (coordinateStore signed c).system call now) where
  lock h := absurd h List.not_mem_nil
  locked h := absurd h List.not_mem_nil
  read h := absurd h List.not_mem_nil
  stale _ h := absurd h List.not_mem_nil
  found _ h := absurd h List.not_mem_nil
  retired _ h := absurd h List.not_mem_nil
  events _ _ h := absurd h List.not_mem_nil
  inserted _ _ h := absurd h List.not_mem_nil
  rolled _ _ h := absurd h List.not_mem_nil
  silent _ := rfl

theorem replay_rule : PlanRule (coordinateStore signed c) (versionsStay signed c)
    (fun p => True ∧ Watermarks.Sound p.db)
    (fun db done t => True ∧ Watermarks.Own Call.plan db done t)
    (fun p => Inv signed c p.db) (Own c.address) where
  advance _ _ h := h
  refuse _ _ _ h := h
  begin p call _ := fresh_own c.address p.db call p.clock
  exec p done k todo t vars ws _ hinv _ hown hplan _ hexec :=
    own_exec hinv hown (needs_of_ordered (by rw [← hplan]; exact plan_ordered t.call))
      (effect_of_exec hexec)
  commit p t _ hinv _ hown _ _ hstay := inv_commit hinv hown hstay
  ownCommit p t u done _ hinv _ ht _ hu hlt hlu hfit hstay :=
    own_commit hinv ht hu hstay hlt hlu hfit

theorem coordinate_rule : Rule (coordinateStore signed c).system
    ((coordinateStore signed c).guard (versionsStay signed c))
    (fun p => Watermarks.Sound p.db ∧ Inv signed c p.db)
    (Open (coordinateStore signed c)
      fun db done t => Watermarks.Own Call.plan db done t ∧ Own c.address db done t) :=
  ((Watermarks.watermark_rule Call.plan marks_ordered).guarded.and replay_rule).rule
    (disciplined Call.plan)

/-! ## A version that is gone -/

def Accepted (db : Db) (id : EventId) : Prop := ∃ x ∈ db.history, x.1.id = id

def Live (db : Db) (c : Coordinate) (id : EventId) : Prop :=
  ∃ x ∈ db.find (.address c.address), x.1.id = id

instance (db : Db) (id : EventId) : Decidable (Accepted db id) :=
  inferInstanceAs (Decidable (∃ x ∈ db.history, _))

instance (db : Db) (c : Coordinate) (id : EventId) : Decidable (Live db c id) :=
  inferInstanceAs (Decidable (∃ x ∈ db.find (.address c.address), _))

theorem accepted_once {db : Db} {t : CallTx signed c} (hsound : Watermarks.Sound db)
    (hinv : Inv signed c db) (hmarks : Watermarks.Own Call.plan db t.call.plan t)
    (ht : Own c.address db t.call.plan t) (h : .inserted key row ∈ t.writes) :
    ¬ Accepted db key.id := by
  rintro ⟨⟨key₀, row₀⟩, hmem, hid⟩
  obtain ⟨hfree, ⟨rollback, hinsert⟩, hread, hstale, -⟩ := ht.inserted key row h
  obtain ⟨e, channelId, hsigned, -, -, hkey, hrow⟩ := insert_of_mem hinsert
  obtain ⟨e₀, channelId₀, hsigned₀, -, -, hkey₀, hrow₀⟩ := hinv.origin key₀ row₀ hmem
  have hsame : e₀ = e := by
    rw [hkey₀, hkey] at hid
    exact signed.id_injective e₀ e hsigned₀ hsigned hid
  have hkeys : key₀ = key := by rw [hkey₀, hkey, hsame]
  have hconform : conforms row₀ = conforms row := by
    rw [hrow₀, hrow]
    exact conforms_congr hsame rfl
  rw [hkeys] at hmem
  cases hconforms : conforms row₀ with
  | true =>
    -- the watermark is at or above what was accepted, and the insert went above the watermark
    have hmark₀ : ∃ c', triggerCoordinate key row₀ = some c' ∧ triggerCoordinate key row = some c' := by
      refine ⟨⟨key.communityId, e.kind, e.pubkey, c.dTag⟩, ?_, ?_⟩
      · rw [triggerCoordinate, if_pos hconforms, hrow₀, hsame]
        rfl
      · rw [triggerCoordinate, if_pos (hconform.symm.trans hconforms), hrow]
        rfl
    obtain ⟨c', hmark₀, hmark⟩ := hmark₀
    obtain ⟨mark, hget, hle⟩ := hsound.dominates key row₀ c' hmem hmark₀
    exact absurd ((Watermarks.inserted_mark hmarks h hmark).1 mark hget) (not_lt.mpr hle)
  | false =>
    rcases (ht.read hread).accepted key row₀ hmem hconforms with hstored | ⟨top, htop, hle⟩
    · rw [hfree] at hstored
      cases hstored
    · exact absurd (ht.stale key.stamp hstale top htop) (not_lt.mpr hle)

abbrev CoordinateWorld (signed : Signed) (c : Coordinate) :=
  World (Call signed c) Db Lock Vars Write DbError

abbrev CoordinateKept (s : CoordinateWorld signed c) : Prop :=
  Kept (fun p => Watermarks.Sound p.db ∧ Inv signed c p.db)
    (Open (coordinateStore signed c)
      fun db done t => Watermarks.Own Call.plan db done t ∧ Own c.address db done t) s

theorem gone_step {s s' : CoordinateWorld signed c} {action : Action (Call signed c) DbError}
    (hkept : CoordinateKept s) {id : EventId} (haccepted : Accepted s.pub.db id)
    (hgone : ¬ Live s.pub.db c id) (hstep : step (coordinateStore signed c).system s action = some s') :
    Accepted s'.pub.db id ∧ ¬ Live s'.pub.db c id := by
  by_cases hcommit : ∃ tx, action = .commit tx
  · obtain ⟨tx, rfl⟩ := hcommit
    obtain ⟨t, hopen, hrest, hpub⟩ := step_commit hstep
    obtain ⟨-, -, hmarks, ht⟩ := (hkept.own tx t hopen).finished hrest
    have hdb : s'.pub.db = (coordinateStore signed c).seen s.pub.db t := by rw [hpub]; rfl
    rw [hdb]
    constructor
    · obtain ⟨x, hmem, hid⟩ := haccepted
      refine ⟨x, ?_, hid⟩
      unfold Planned.seen
      rw [history_view]
      exact List.mem_append_left _ hmem
    · rintro ⟨⟨key, row⟩, hmem, rfl⟩
      rcases live_seen ht (mem_find.mp hmem) with hlive | hinserted
      · exact hgone ⟨(key, row), mem_find.mpr hlive, rfl⟩
      · exact accepted_once hkept.inv.1 hkept.inv.2 hmarks ht hinserted haccepted
  · have hdb : s'.pub.db = s.pub.db := step_db hstep fun tx heq => hcommit ⟨tx, heq⟩
    rw [hdb]
    exact ⟨haccepted, hgone⟩

theorem empty_inv (signed : Signed) (c : Coordinate) :
    Watermarks.Sound .empty ∧ Inv signed c .empty := by
  refine ⟨⟨?_, ?_⟩, ?_, ?_, ?_, ?_⟩
  · intro key row c' hmem
    cases hmem
  · intro key row hget
    cases hget
  · intro key row hmem
    cases hmem
  · intro key row hget
    cases hget
  · intro key row hmem
    cases hmem
  · intro key row key' row' hlive
    cases hlive.1

/-- In a run whose deletions commit only while every accepted version stays stored, one version at
most is live, and a version that was accepted and is not live any more never is again. -/
theorem gone_versions_stay_gone {clock : Int} {as₁ as₂ : List (Action (Call signed c) DbError)}
    {s₁ s₂ : CoordinateWorld signed c}
    (hmeets : Meets (step (coordinateStore signed c).system)
      ((coordinateStore signed c).guard (versionsStay signed c)).allows
      (World.init clock .empty) (as₁ ++ as₂))
    (hrun₁ : run (step (coordinateStore signed c).system) (World.init clock .empty) as₁ = some s₁)
    (hrun₂ : run (step (coordinateStore signed c).system) s₁ as₂ = some s₂) :
    (∀ id id', Live s₁.pub.db c id → Live s₁.pub.db c id' → id = id') ∧
      ∀ id, Accepted s₁.pub.db id → ¬ Live s₁.pub.db c id → ¬ Live s₂.pub.db c id := by
  obtain ⟨hmeets₁, hmeets₂⟩ := meets_append.mp hmeets
  have hkept : CoordinateKept s₁ :=
    run_keeps_of_meets coordinate_rule (kept_init clock (empty_inv signed c)) hmeets₁ hrun₁
  constructor
  · rintro id id' ⟨⟨key, row⟩, hmem, rfl⟩ ⟨⟨key', row'⟩, hmem', rfl⟩
    exact congrArg EventKey.id
      (hkept.inv.2.one key row key' row' (mem_find.mp hmem) (mem_find.mp hmem'))
  · intro id haccepted hgone
    have hall : CoordinateKept s₂ ∧ Accepted s₂.pub.db id ∧ ¬ Live s₂.pub.db c id := by
      refine run_invariant_of_meets
        (fun s => CoordinateKept s ∧ Accepted s.pub.db id ∧ ¬ Live s.pub.db c id) ?_
        ⟨hkept, haccepted, hgone⟩ (hmeets₂ s₁ hrun₁) hrun₂
      rintro s action s' ⟨hs, haccepted, hgone⟩ hallowed hstep
      exact ⟨(step_cases hstep).kept coordinate_rule hallowed hs,
        gone_step hs haccepted hgone hstep⟩
    exact hall.2.2

/-! ## Two coordinates -/

def only (e : Event) : Signed := ⟨fun e' => e' = e, fun _ _ h h' _ => h.trans h'.symm⟩

def article : Event := ⟨3, 7, 100, 30023, [⟨"d", ["intro"]⟩], "", time100_lt⟩

def articleCoordinate : Coordinate := ⟨1, 30023, 7, "intro"⟩

def publishArticle : Call (only article) articleCoordinate :=
  .replaceParameterizedEvent article none rfl rfl rfl

def articleDeleted : List (Action (Call (only article) articleCoordinate) DbError) :=
  [Action.begin publishArticle] ++ List.replicate 8 (Action.exec 0) ++
    [Action.commit 0, .begin (Call.softDeleteEvent 3)] ++
    List.replicate 2 (Action.exec 1) ++ [Action.commit 1]

def articleReplayed : List (Action (Call (only article) articleCoordinate) DbError) :=
  [Action.begin publishArticle] ++ List.replicate 8 (Action.exec 2)

instance (signed : Signed) (c : Coordinate) (p : CallPublic signed c) (t : CallTx signed c) (k : Sql) :
    Decidable ((versionsStay signed c).exec p t k) := isTrue trivial

instance (signed : Signed) (c : Coordinate) (p : CallPublic signed c) (t : CallTx signed c) :
    Decidable ((versionsStay signed c).commit p t) :=
  inferInstanceAs (Decidable (Deletes t.writes = true → AllStay p.db))

theorem gone_versions_stay_gone_on_article :
    ∃ s₁ s₂, run (step (coordinateStore (only article) articleCoordinate).system)
        (World.init 0 .empty) articleDeleted = some s₁ ∧
      run (step (coordinateStore (only article) articleCoordinate).system) s₁ articleReplayed =
        some s₂ ∧
      Accepted s₁.pub.db 3 ∧ ¬ Live s₁.pub.db articleCoordinate 3 ∧
      ¬ Live s₂.pub.db articleCoordinate 3 := by
  have hmeets : Meets (step (coordinateStore (only article) articleCoordinate).system)
      ((coordinateStore (only article) articleCoordinate).guard (versionsStay _ _)).allows
      (World.init 0 .empty) (articleDeleted ++ articleReplayed) := by
    decide +kernel
  have hrun : ((run (step (coordinateStore (only article) articleCoordinate).system)
      (World.init 0 .empty) articleDeleted).any fun s₁ =>
      decide (Accepted s₁.pub.db 3 ∧ ¬ Live s₁.pub.db articleCoordinate 3) &&
      (run (step (coordinateStore (only article) articleCoordinate).system) s₁
        articleReplayed).isSome) = true := by
    decide +kernel
  obtain ⟨s₁, hrun₁, hfacts⟩ := (Option.any_eq_true _ _).mp hrun
  simp only [Bool.and_eq_true, decide_eq_true_eq, Option.isSome_iff_exists] at hfacts
  obtain ⟨⟨haccepted, hgone⟩, s₂, hrun₂⟩ := hfacts
  exact ⟨s₁, s₂, hrun₁, hrun₂, haccepted, hgone,
    (gone_versions_stay_gone hmeets hrun₁ hrun₂).2 3 haccepted hgone⟩

def meshStatus : Event :=
  ⟨3, 7, 100, kindBookmarkSet, [⟨"d", ["buzz-mesh-member-status:a"]⟩, ⟨"k", ["buzz-mesh-status"]⟩],
    "", time100_lt⟩

def meshCoordinate : Coordinate := ⟨1, kindBookmarkSet, 7, "buzz-mesh-member-status:a"⟩

def publishMesh : Call (only meshStatus) meshCoordinate :=
  .replaceParameterizedEvent meshStatus none rfl rfl rfl

def meshDeleted : List (Action (Call (only meshStatus) meshCoordinate) DbError) :=
  [Action.begin publishMesh] ++ List.replicate 8 (Action.exec 0) ++
    [Action.commit 0, .begin (Call.softDeleteByCoordinate 200)] ++
    List.replicate 3 (Action.exec 1) ++ [Action.commit 1]

def meshReplayed : List (Action (Call (only meshStatus) meshCoordinate) DbError) :=
  [Action.begin publishMesh] ++ List.replicate 8 (Action.exec 2) ++ [Action.commit 2]

/-- The trigger takes the row away, and the same event is accepted again. -/
theorem deleted_mesh_status_comes_back :
    ∃ s₁ s₂, run (step (coordinateStore (only meshStatus) meshCoordinate).system)
        (World.init 0 .empty) meshDeleted = some s₁ ∧
      run (step (coordinateStore (only meshStatus) meshCoordinate).system) s₁ meshReplayed =
        some s₂ ∧
      Accepted s₁.pub.db 3 ∧ ¬ Live s₁.pub.db meshCoordinate 3 ∧
      Live s₂.pub.db meshCoordinate 3 := by
  have hrun : ((run (step (coordinateStore (only meshStatus) meshCoordinate).system)
      (World.init 0 .empty) meshDeleted).any fun s₁ =>
      decide (Accepted s₁.pub.db 3 ∧ ¬ Live s₁.pub.db meshCoordinate 3) &&
      (run (step (coordinateStore (only meshStatus) meshCoordinate).system) s₁ meshReplayed).any
        fun s₂ => decide (Live s₂.pub.db meshCoordinate 3)) = true := by
    decide +kernel
  obtain ⟨s₁, hrun₁, hfacts⟩ := (Option.any_eq_true _ _).mp hrun
  simp only [Bool.and_eq_true, decide_eq_true_eq, Option.any_eq_true] at hfacts
  obtain ⟨⟨haccepted, hgone⟩, s₂, hrun₂, hlive⟩ := hfacts
  exact ⟨s₁, s₂, hrun₁, hrun₂, haccepted, hgone, hlive⟩

end Vingilot.Events.Replay
