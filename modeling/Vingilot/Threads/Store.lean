import Vingilot.Events.Store

/-!
# Thread metadata and its counters (`buzz-db/src/event.rs`, `buzz-db/src/thread.rs`)

The tables hold the rows of one community: every statement filters by it. An event and its metadata
have the same key, `(created_at, id)`. A transaction locks what it updates, so it is one function.
-/

namespace Vingilot.Threads

open Events (EventId Stamp DbError)
open Workflow (fromTimestamp)

structure EventRow where
  event : Events.Event
  channelId : Option Uuid
  /-- `deleted_at IS NOT NULL`. -/
  deleted : Bool
deriving DecidableEq

structure ThreadMetadata where
  channelId : Uuid
  parentEventId : Option EventId
  parentEventCreatedAt : Option Int
  rootEventId : Option EventId
  rootEventCreatedAt : Option Int
  depth : Int
  replyCount : Int
  descendantCount : Int
  broadcast : Bool

structure Db where
  events : Table Stamp EventRow
  metadata : Table Stamp ThreadMetadata

def Db.empty : Db := ⟨∅, ∅⟩

/-! ## Reads -/

/-- `ORDER BY created_at DESC LIMIT 1` over the rows of an id. -/
def Db.newest (db : Db) (id : EventId) (p : EventRow → Bool) : Option EventRow :=
  (((db.events.toList.filter fun x => x.1.id == id && p x.2).map Prod.fst).max?).bind db.events.get?

def Db.getEventById (db : Db) (id : EventId) : Option EventRow := db.newest id fun row => !row.deleted

def Db.getEventByIdIncludingDeleted (db : Db) (id : EventId) : Option EventRow :=
  db.newest id fun _ => true

def Db.rowsOf (db : Db) (id : EventId) : List (Stamp × ThreadMetadata) :=
  db.metadata.toList.filter fun x => x.1.id == id

/-- `LIMIT 1` without an order: `pick` says which row it is. -/
def Db.getThreadMetadataByEvent (db : Db) (id : EventId) (pick : Nat) : Option ThreadMetadata :=
  ((db.rowsOf id)[pick % (db.rowsOf id).length]?).map Prod.snd

/-! ## Insertion -/

structure ThreadMetadataParams where
  channelId : Uuid
  parentEventId : Option EventId
  parentEventCreatedAt : Option Int
  rootEventId : Option EventId
  rootEventCreatedAt : Option Int
  depth : Int
  broadcast : Bool

def ThreadMetadataParams.row (p : ThreadMetadataParams) : ThreadMetadata :=
  ⟨p.channelId, p.parentEventId, p.parentEventCreatedAt, p.rootEventId, p.rootEventCreatedAt, p.depth,
    0, 0, p.broadcast⟩

def ThreadMetadata.stub (channelId : Uuid) : ThreadMetadata :=
  ⟨channelId, none, none, none, none, 0, 0, 0, false⟩

/-- `ON CONFLICT DO NOTHING`. -/
def Db.insertMetadata (db : Db) (key : Stamp) (row : ThreadMetadata) : Db :=
  match db.metadata.get? key with
  | some _ => db
  | none => { db with metadata := db.metadata.set key row }

/-- `UPDATE thread_metadata .. WHERE event_id = id`. -/
def Db.updateMetadata (db : Db) (id : EventId) (f : ThreadMetadata → ThreadMetadata) : Db :=
  { db with
    metadata := db.metadata.setAll
      ((db.metadata.toList.filter fun x => x.1.id == id).map fun x => (x.1, f x.2)) }

def ThreadMetadata.addReply (n : Int) (row : ThreadMetadata) : ThreadMetadata :=
  { row with replyCount := row.replyCount + n }

def ThreadMetadata.addDescendant (n : Int) (row : ThreadMetadata) : ThreadMetadata :=
  { row with descendantCount := row.descendantCount + n }

def Db.insertThread (db : Db) (key : Stamp) (params : ThreadMetadataParams) : Db :=
  match db.metadata.get? key with
  | some _ => db
  | none =>
    let db := { db with metadata := db.metadata.set key params.row }
    match params.parentEventId with
    | none => db
    | some pid =>
      let db := db.insertMetadata ⟨params.parentEventCreatedAt.getD key.createdAt, pid⟩
        (.stub params.channelId)
      match params.rootEventId with
      | none => db.updateMetadata pid (.addReply 1)
      | some root =>
        let db := if root ≠ pid then
          db.insertMetadata ⟨params.rootEventCreatedAt.getD key.createdAt, root⟩ (.stub params.channelId)
          else db
        (db.updateMetadata pid (.addReply 1)).updateMetadata root (.addDescendant 1)

def insertEventWithThreadMetadata (db : Db) (e : Events.Event) (channelId : Option Uuid)
    (params : Option ThreadMetadataParams) : Except DbError (Db × Bool) :=
  if e.kind = 22242 then .error .authEventRejected
  else if 20000 ≤ e.kind ∧ e.kind ≤ 29999 then .error (.ephemeralEventRejected e.kind)
  else if (fromTimestamp e.time).isNone then .error (.invalidTimestamp e.time)
  else match db.events.get? e.stamp with
    | some _ => .ok (db, false)
    | none =>
      let db := { db with events := db.events.set e.stamp ⟨e, channelId, false⟩ }
      match params with
      | none => .ok (db, true)
      | some params => .ok (db.insertThread e.stamp params, true)

/-! ## Deletion -/

/-- `GREATEST(n - 1, 0)`. -/
def floorDecrement (n : Int) : Int := max (n - 1) 0

def EventRow.delete (row : EventRow) : EventRow := { row with deleted := true }

def Db.liveRows (db : Db) (id : EventId) : List (Stamp × EventRow) :=
  db.events.toList.filter fun x => x.1.id == id && !x.2.deleted

/-- `decrement` is what the update does to a counter. -/
def softDeleteWith (decrement : Int → Int) (db : Db) (id : EventId) (parent root : Option EventId) :
    Db × Bool :=
  if (db.liveRows id).isEmpty then (db, false)
  else
    let db := { db with
      events := db.events.setAll ((db.liveRows id).map fun x => (x.1, x.2.delete)) }
    match parent with
    | none => (db, true)
    | some pid =>
      let db := db.updateMetadata pid fun row => { row with replyCount := decrement row.replyCount }
      match root with
      | none => (db, true)
      | some root =>
        (db.updateMetadata root fun row =>
          { row with descendantCount := decrement row.descendantCount }, true)

def softDeleteEventAndUpdateThread : Db → EventId → Option EventId → Option EventId → Db × Bool :=
  softDeleteWith floorDecrement

/-! ## What the operations read and write -/

variable {row : ThreadMetadata} {k : Stamp} {e : Events.Event}

section Spec

variable {db : Db} {key : Stamp} {params : ThreadMetadataParams}

theorem newest_some {id : EventId} {p : EventRow → Bool} {row : EventRow}
    (h : db.newest id p = some row) : ∃ k, db.events.get? k = some row ∧ k.id = id ∧ p row = true := by
  unfold Db.newest at h
  obtain ⟨k, hmax, hget⟩ := Option.bind_eq_some_iff.mp h
  obtain ⟨⟨k', row'⟩, hmem, rfl⟩ := List.mem_map.mp (List.max?_eq_some_iff.mp hmax).1
  rw [List.mem_filter, Table.mem_toList] at hmem
  obtain ⟨hget', hp⟩ := hmem
  cases hget.symm.trans hget'
  simp only [Bool.and_eq_true, beq_iff_eq] at hp
  exact ⟨k', hget, hp⟩

theorem newest_none {id : EventId} {p : EventRow → Bool} (h : db.newest id p = none)
    {row : EventRow} (hget : db.events.get? k = some row) (hid : k.id = id) : p row = false := by
  rw [Bool.eq_false_iff]
  intro hp
  have hmem : k ∈ (db.events.toList.filter fun x => x.1.id == id && p x.2).map Prod.fst := by
    refine List.mem_map.mpr ⟨(k, row), ?_, rfl⟩
    rw [List.mem_filter, Table.mem_toList]
    simp [hget, hid, hp]
  unfold Db.newest at h
  cases hmax : ((db.events.toList.filter fun x => x.1.id == id && p x.2).map Prod.fst).max? with
  | none =>
    rw [List.max?_eq_none_iff] at hmax
    rw [hmax] at hmem
    cases hmem
  | some m =>
    obtain ⟨⟨k', row'⟩, hin, rfl⟩ := List.mem_map.mp (List.max?_eq_some_iff.mp hmax).1
    rw [List.mem_filter, Table.mem_toList] at hin
    rw [hmax, Option.bind_some, hin.1] at h
    cases h

theorem mem_rowsOf {id : EventId} :
    (k, row) ∈ db.rowsOf id ↔ db.metadata.get? k = some row ∧ k.id = id := by
  unfold Db.rowsOf
  rw [List.mem_filter, Table.mem_toList, beq_iff_eq]

theorem rowsOf_cases (db : Db) (id : EventId) :
    db.rowsOf id = [] ∨ ∃ k row, db.metadata.get? k = some row ∧ k.id = id := by
  rcases List.eq_nil_or_concat (db.rowsOf id) with hnil | ⟨rows, x, hrows⟩
  · exact .inl hnil
  · have hmem : (x.1, x.2) ∈ db.rowsOf id := by simp [hrows]
    exact .inr ⟨x.1, x.2, mem_rowsOf.mp hmem⟩

theorem metadata_some {id : EventId} {pick : Nat}
    (h : db.getThreadMetadataByEvent id pick = some row) :
    ∃ k, db.metadata.get? k = some row ∧ k.id = id := by
  obtain ⟨⟨k, row'⟩, hget, rfl⟩ := Option.map_eq_some_iff.mp h
  exact ⟨k, mem_rowsOf.mp (List.mem_of_getElem? hget)⟩

theorem metadata_none {id : EventId} {pick : Nat}
    (h : db.getThreadMetadataByEvent id pick = none) : db.rowsOf id = [] := by
  rw [Db.getThreadMetadataByEvent, Option.map_eq_none_iff, List.getElem?_eq_none_iff] at h
  by_contra hne
  have hpos := List.length_pos_iff.mpr hne
  exact absurd (Nat.mod_lt pick hpos) (not_lt.mpr h)

theorem get?_insertMetadata (db : Db) (key : Stamp) (row : ThreadMetadata) (k : Stamp) :
    (db.insertMetadata key row).metadata.get? k =
      (db.metadata.get? k).or (if k = key then some row else none) := by
  unfold Db.insertMetadata
  cases hget : db.metadata.get? key with
  | none =>
    simp only [Table.get?_set]
    split_ifs with hk
    · rw [hk, hget]
      rfl
    · simp
  | some old =>
    split_ifs with hk
    · rw [hk, hget]
      rfl
    · simp

theorem get?_updateMetadata (db : Db) (id : EventId) (f : ThreadMetadata → ThreadMetadata)
    (k : Stamp) :
    (db.updateMetadata id f).metadata.get? k =
      (db.metadata.get? k).map fun row => if k.id = id then f row else row := by
  unfold Db.updateMetadata
  rw [Table.get?_setAll_update]
  simp

@[simp]
theorem events_insertMetadata (db : Db) (key : Stamp) (row : ThreadMetadata) :
    (db.insertMetadata key row).events = db.events := by
  unfold Db.insertMetadata
  split <;> rfl

@[simp]
theorem events_updateMetadata (db : Db) (id : EventId) (f : ThreadMetadata → ThreadMetadata) :
    (db.updateMetadata id f).events = db.events := rfl

theorem events_insertThread (db : Db) (key : Stamp) (params : ThreadMetadataParams) :
    (db.insertThread key params).events = db.events := by
  unfold Db.insertThread
  cases db.metadata.get? key with
  | some row => rfl
  | none =>
    cases params.parentEventId with
    | none => rfl
    | some pid =>
      cases params.rootEventId with
      | none => simp
      | some root =>
        by_cases hne : root = pid <;> simp [hne]

def stubKeys (key : Stamp) (params : ThreadMetadataParams) : List Stamp :=
  match params.parentEventId with
  | none => []
  | some pid =>
    ⟨params.parentEventCreatedAt.getD key.createdAt, pid⟩ ::
      match params.rootEventId with
      | none => []
      | some root =>
        if root ≠ pid then [⟨params.rootEventCreatedAt.getD key.createdAt, root⟩] else []

def counted (params : ThreadMetadataParams) (id : EventId) (row : ThreadMetadata) : ThreadMetadata :=
  { row with
    replyCount := row.replyCount + if params.parentEventId = some id then 1 else 0
    descendantCount := row.descendantCount +
      if params.parentEventId.isSome ∧ params.rootEventId = some id then 1 else 0 }

theorem counted_top (hparent : params.parentEventId = none) (id : EventId) :
    counted params id = fun row => row := by
  funext row
  simp [counted, hparent]

theorem counted_reply {pid : EventId} (hparent : params.parentEventId = some pid)
    (hroot : params.rootEventId = none) (id : EventId) :
    counted params id = fun row => if id = pid then row.addReply 1 else row := by
  funext row
  by_cases hid : pid = id
  · simp [counted, hparent, hroot, hid, ThreadMetadata.addReply]
  · simp [counted, hparent, hroot, hid, Ne.symm hid]

theorem counted_both {pid root : EventId} (hparent : params.parentEventId = some pid)
    (hroot : params.rootEventId = some root) (id : EventId) :
    counted params id = (fun row => if id = root then row.addDescendant 1 else row) ∘
      fun row => if id = pid then row.addReply 1 else row := by
  funext row
  by_cases hid : pid = id <;> by_cases hid' : root = id
  · simp [counted, hparent, hroot, hid, hid', ThreadMetadata.addReply, ThreadMetadata.addDescendant]
  · simp [counted, hparent, hroot, hid, hid', Ne.symm hid', ThreadMetadata.addReply]
  · simp [counted, hparent, hroot, hid, hid', Ne.symm hid, ThreadMetadata.addDescendant]
  · simp [counted, hparent, hroot, hid, hid', Ne.symm hid, Ne.symm hid']

theorem ite_or {α : Type} {p : Prop} [Decidable p] {x : α} {y z : Option α} :
    (if p then some x else y).or z = if p then some x else y.or z := by
  split_ifs <;> rfl

theorem get?_insertThread (hnew : db.metadata.get? key = none) (k : Stamp) :
    (db.insertThread key params).metadata.get? k =
      ((if k = key then some params.row else
        (db.metadata.get? k).or
          (if k ∈ stubKeys key params then some (.stub params.channelId) else none))).map
        (counted params k.id) := by
  unfold Db.insertThread stubKeys
  rw [hnew]
  cases hparent : params.parentEventId with
  | none => simp [counted_top hparent]
  | some pid =>
    cases hroot : params.rootEventId with
    | none =>
      simp only [get?_updateMetadata, get?_insertMetadata, Table.get?_set, ite_or,
        counted_reply hparent hroot, List.mem_singleton]
    | some root =>
      simp only [counted_both hparent hroot]
      by_cases hne : root ≠ pid
      · simp only [if_pos hne, get?_updateMetadata, get?_insertMetadata, Table.get?_set, ite_or,
          Option.map_map, List.mem_cons, List.not_mem_nil, or_false, Option.or_assoc]
        congr 2
        by_cases hk : k = ⟨params.parentEventCreatedAt.getD key.createdAt, pid⟩ <;> simp [hk]
      · simp only [if_neg hne, get?_updateMetadata, get?_insertMetadata, Table.get?_set, ite_or,
          Option.map_map, List.mem_singleton]

/-! ### A new event -/

section NewEvent

variable {ev : EventRow}

def named (key : Stamp) (params : ThreadMetadataParams) : List Stamp := key :: stubKeys key params

def withThread (db : Db) (key : Stamp) (ev : EventRow) (params : ThreadMetadataParams) : Db :=
  ({ db with events := db.events.set key ev } : Db).insertThread key params

theorem events_withThread (k : Stamp) :
    (withThread db key ev params).events.get? k = if k = key then some ev else db.events.get? k := by
  rw [withThread, events_insertThread, Table.get?_set]

theorem metadata_withThread (hnew : db.metadata.get? key = none) (k : Stamp) :
    (withThread db key ev params).metadata.get? k =
      ((if k = key then some params.row else
        (db.metadata.get? k).or
          (if k ∈ stubKeys key params then some (.stub params.channelId) else none))).map
        (counted params k.id) :=
  @get?_insertThread { db with events := db.events.set key ev } key params hnew k

theorem row_withThread (hnew : db.metadata.get? key = none)
    (h : (withThread db key ev params).metadata.get? k = some row) :
    ∃ base, row = counted params k.id base ∧
      ((k = key ∧ base = params.row) ∨ db.metadata.get? k = some base ∨
        (k ∈ stubKeys key params ∧ db.metadata.get? k = none ∧ base = .stub params.channelId)) := by
  rw [metadata_withThread hnew] at h
  obtain ⟨base, hbase, rfl⟩ := Option.map_eq_some_iff.mp h
  refine ⟨base, rfl, ?_⟩
  split_ifs at hbase with hk hstub
  · cases hbase
    exact .inl ⟨hk, rfl⟩
  · cases hold : db.metadata.get? k with
    | none =>
      simp only [hold, Option.none_or, Option.some.injEq] at hbase
      exact .inr (.inr ⟨hstub, rfl, hbase.symm⟩)
    | some old =>
      simp only [hold, Option.some_or, Option.some.injEq] at hbase
      exact .inr (.inl (by rw [hbase]))
  · rw [Option.or_none] at hbase
    exact .inr (.inl hbase)

theorem kept_withThread (hnew : db.metadata.get? key = none) (h : db.metadata.get? k = some row) :
    (withThread db key ev params).metadata.get? k = some (counted params k.id row) := by
  rw [metadata_withThread hnew, if_neg, h]
  · rfl
  · rintro rfl
    cases hnew.symm.trans h

theorem named_withThread (hnew : db.metadata.get? key = none) (h : k ∈ named key params) :
    ((withThread db key ev params).metadata.get? k).isSome = true := by
  rw [metadata_withThread hnew, Option.isSome_map]
  by_cases hk : k = key
  · rw [if_pos hk]
    rfl
  · have hstub : k ∈ stubKeys key params := (List.mem_cons.mp h).resolve_left hk
    rw [if_neg hk, if_pos hstub]
    cases db.metadata.get? k <;> rfl

def withEvent (db : Db) (key : Stamp) (ev : EventRow) : Db :=
  { db with events := db.events.set key ev }

theorem events_withEvent (k : Stamp) :
    (withEvent db key ev).events.get? k = if k = key then some ev else db.events.get? k :=
  Table.get?_set ..

theorem insert_cases {db db' : Db} {channelId : Option Uuid} {params : Option ThreadMetadataParams}
    {inserted : Bool}
    (h : insertEventWithThreadMetadata db e channelId params = .ok (db', inserted)) :
    db' = db ∨ (db.events.get? e.stamp = none ∧
      (db' = withEvent db e.stamp ⟨e, channelId, false⟩ ∨
        ∃ p ∈ params, db.metadata.get? e.stamp = none ∧
          db' = withThread db e.stamp ⟨e, channelId, false⟩ p)) := by
  unfold insertEventWithThreadMetadata at h
  split_ifs at h
  cases hstored : db.events.get? e.stamp with
  | some row =>
    simp only [hstored, Except.ok.injEq, Prod.mk.injEq] at h
    exact .inl h.1.symm
  | none =>
    refine .inr ⟨rfl, ?_⟩
    cases params with
    | none =>
      simp only [hstored, Except.ok.injEq, Prod.mk.injEq] at h
      exact .inl h.1.symm
    | some p =>
      simp only [hstored, Except.ok.injEq, Prod.mk.injEq] at h
      cases hrow : db.metadata.get? e.stamp with
      | none => exact .inr ⟨p, rfl, rfl, h.1.symm⟩
      | some row =>
        refine .inl (h.1.symm.trans ?_)
        simp only [Db.insertThread, hrow, withEvent]

theorem insert_plain {db db' : Db} {channelId : Option Uuid} {inserted : Bool}
    (hfree : db.events.get? e.stamp = none)
    (h : insertEventWithThreadMetadata db e channelId none = .ok (db', inserted)) :
    db' = withEvent db e.stamp ⟨e, channelId, false⟩ := by
  unfold insertEventWithThreadMetadata at h
  split_ifs at h
  simp only [hfree, Except.ok.injEq, Prod.mk.injEq] at h
  exact h.1.symm

end NewEvent

/-! ### Deletion -/

theorem mem_liveRows {id : EventId} {row : EventRow} : (k, row) ∈ db.liveRows id ↔
      db.events.get? k = some row ∧ k.id = id ∧ row.deleted = false := by
  unfold Db.liveRows
  rw [List.mem_filter, Table.mem_toList]
  simp

variable {decrement : Int → Int} {id : EventId} {parent root : Option EventId}

theorem softDelete_dead (h : db.liveRows id = []) :
    softDeleteWith decrement db id parent root = (db, false) := by
  unfold softDeleteWith
  rw [h]
  rfl

theorem deleted_softDelete :
    (softDeleteWith decrement db id parent root).2 = !(db.liveRows id).isEmpty := by
  unfold softDeleteWith
  cases hlive : (db.liveRows id).isEmpty with
  | true => rfl
  | false =>
    rw [if_neg (by simp)]
    cases parent with
    | none => rfl
    | some pid => cases root <;> rfl

theorem events_softDelete (k : Stamp) :
    (softDeleteWith decrement db id parent root).1.events.get? k =
      (db.events.get? k).map fun row => if k.id = id then row.delete else row := by
  have hset : (db.events.setAll ((db.liveRows id).map fun x => (x.1, x.2.delete))).get? k =
      (db.events.get? k).map fun row => if k.id = id then row.delete else row := by
    unfold Db.liveRows
    rw [Table.get?_setAll_update]
    congr 1
    funext row
    have hdead : row.deleted = true → row.delete = row := by
      intro hdeleted
      rw [EventRow.delete, ← hdeleted]
    cases hdeleted : row.deleted <;> simp [hdead, hdeleted]
  cases hlive : db.liveRows id with
  | nil =>
    rw [softDelete_dead hlive, ← hset, hlive]
    rfl
  | cons x rows =>
    unfold softDeleteWith
    rw [hlive] at hset ⊢
    cases parent with
    | none => exact hset
    | some pid =>
      cases root with
      | none => exact hset
      | some root => exact hset

def discounted (decrement : Int → Int) (parent root : Option EventId) (id : EventId)
    (row : ThreadMetadata) : ThreadMetadata :=
  { row with
    replyCount := if parent = some id then decrement row.replyCount else row.replyCount
    descendantCount :=
      if parent.isSome ∧ root = some id then decrement row.descendantCount
      else row.descendantCount }

theorem metadata_softDelete (h : db.liveRows id ≠ []) (k : Stamp) :
    (softDeleteWith decrement db id parent root).1.metadata.get? k =
      (db.metadata.get? k).map (discounted decrement parent root k.id) := by
  unfold softDeleteWith
  have hne : (db.liveRows id).isEmpty = false := by simpa using h
  rw [hne, if_neg (by simp)]
  cases parent with
  | none =>
    have hsame : discounted decrement none root k.id = fun row => row := by
      funext row
      simp [discounted]
    simp [hsame]
  | some pid =>
    cases root with
    | none =>
      have hone : discounted decrement (some pid) none k.id = fun row =>
          if k.id = pid then { row with replyCount := decrement row.replyCount } else row := by
        funext row
        by_cases hid : pid = k.id <;> simp [discounted, hid, eq_comm (a := k.id)]
      simp only [get?_updateMetadata, hone]
    | some root =>
      have hboth : discounted decrement (some pid) (some root) k.id =
          (fun row => if k.id = root then
            { row with descendantCount := decrement row.descendantCount } else row) ∘
          fun row => if k.id = pid then
            { row with replyCount := decrement row.replyCount } else row := by
        funext row
        by_cases hid : pid = k.id <;> by_cases hid' : root = k.id <;>
          simp [discounted, hid, hid', Ne.symm]
      simp only [get?_updateMetadata, hboth, Option.map_map]

end Spec

/-! ## Signed events -/

section Original

open Events (Signed)

def Original (signed : Signed) (db : Db) : Prop :=
  ∀ k ev, db.events.get? k = some ev → ev.event.stamp = k ∧ signed.has ev.event

variable {signed : Signed} {db db' : Db} {key : Stamp} {ev : EventRow}

theorem Original.set (h : Original signed db) (hev : ev.event.stamp = key ∧ signed.has ev.event)
    (hevents : ∀ k, db'.events.get? k = if k = key then some ev else db.events.get? k) :
    Original signed db' := by
  intro k row hget
  rw [hevents] at hget
  split_ifs at hget with hk
  · cases hget
    rw [hk]
    exact hev
  · exact h k row hget

theorem Original.softDelete (h : Original signed db) (decrement : Int → Int) (id : EventId)
    (parent root : Option EventId) :
    Original signed (softDeleteWith decrement db id parent root).1 := by
  intro k row hget
  rw [events_softDelete] at hget
  obtain ⟨old, hold, rfl⟩ := Option.map_eq_some_iff.mp hget
  have horigin := h k old hold
  split_ifs
  · exact horigin
  · exact horigin

theorem Original.purge (h : Original signed db) (key : Stamp) :
    Original signed { db with events := db.events.remove key } := by
  intro k row hget
  rw [Table.get?_remove] at hget
  split_ifs at hget
  exact h k row hget

theorem Original.event_eq (h : Original signed db) (hget : db.events.get? k = some ev)
    (hsigned : signed.has e) (hid : k.id = e.id) : ev.event = e := by
  obtain ⟨hstamp, hsigned'⟩ := h k ev hget
  have hids : ev.event.id = e.id := by
    have hk : ev.event.stamp.id = k.id := by rw [hstamp]
    exact hk.trans hid
  exact signed.id_injective _ _ hsigned' hsigned hids

theorem Original.key_eq (h : Original signed db) (hget : db.events.get? k = some ev)
    (hsigned : signed.has e) (hid : k.id = e.stamp.id) : k = e.stamp := by
  rw [← (h k ev hget).1, h.event_eq hget hsigned hid]

theorem Original.key_unique (h : Original signed db) {k' : Stamp} {ev' : EventRow}
    (hget : db.events.get? k = some ev) (hget' : db.events.get? k' = some ev') (hid : k.id = k'.id) :
    k = k' := by
  obtain ⟨rfl, hsigned⟩ := h k' ev' hget'
  exact h.key_eq hget hsigned hid

theorem Original.id_ne (h : Original signed db) (hsigned : signed.has e)
    (hfree : db.events.get? e.stamp = none) (hget : db.events.get? k = some ev) :
    k.id ≠ e.stamp.id := by
  intro hid
  rw [h.key_eq hget hsigned hid, hfree] at hget
  cases hget

theorem Original.getEventById_iff (h : Original signed db) {id : EventId} :
    db.getEventById id = some ev ↔
      ∃ k, db.events.get? k = some ev ∧ k.id = id ∧ ev.deleted = false := by
  constructor
  · intro hfound
    obtain ⟨k, hget, hid, hlive⟩ := newest_some hfound
    exact ⟨k, hget, hid, by simpa using hlive⟩
  · rintro ⟨k, hget, hid, hlive⟩
    cases hfound : db.getEventById id with
    | none =>
      have hdead := newest_none hfound hget hid
      rw [hlive] at hdead
      cases hdead
    | some ev' =>
      obtain ⟨k', hget', hid', -⟩ := newest_some hfound
      rw [h.key_unique hget' hget (hid'.trans hid.symm), hget] at hget'
      exact hget'.symm

theorem Original.live_stamp (h : Original signed db) {id : EventId}
    (hfound : db.getEventById id = some ev) :
    db.events.get? ⟨ev.event.time, id⟩ = some ev ∧ signed.has ev.event ∧
      ev.event.stamp = ⟨ev.event.time, id⟩ := by
  obtain ⟨k, hget, hid, -⟩ := h.getEventById_iff.mp hfound
  obtain ⟨hstamp, hsigned⟩ := h k ev hget
  have hk : k = ⟨ev.event.time, id⟩ := by
    rw [← hstamp, ← hid, ← hstamp]
    rfl
  rw [← hk]
  exact ⟨hget, hsigned, hstamp⟩

end Original

end Vingilot.Threads
