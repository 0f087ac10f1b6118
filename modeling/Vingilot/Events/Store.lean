import Mathlib.Data.List.Sort
import Vingilot.Events.Rows
import Vingilot.Lib.Plans

/-!
# Replacements, inserts and deletions of events (`buzz-db/src/lib.rs`, `buzz-db/src/event.rs`)

Every call is a list of statements. An `UPDATE` or a `DELETE` of many rows is two of them: it finds
its rows, and then, once it has their locks, it changes those that still fit its condition. The
trigger before an insert is a statement of its own as well.
-/

namespace Vingilot.Events

open Transactions
open Workflow (fromTimestamp)

structure RelayMember where
  role : String
  createdAt : Int

structure Db where
  events : Table EventKey Row
  /-- `parameterized_event_watermarks`. -/
  watermarks : Table Coordinate Stamp
  relayMembers : Table (CommunityId × String) RelayMember
  /-- All rows that were ever inserted. No statement reads it. -/
  history : List (EventKey × Row)

def Db.empty : Db := ⟨∅, ∅, ∅, []⟩

/-! ## Conditions -/

/-- The `WHERE` clause of a deletion. -/
inductive Where where
  | address (a : Address)
  /-- `created_at <= $5` on top of the coordinate. -/
  | upTo (a : Address) (createdAt : Int)
  | byId (communityId : CommunityId) (id : EventId)

def Where.has (w : Where) (key : EventKey) (row : Row) : Bool :=
  row.deletedAt.isNone &&
    match w with
    | address a => a.has key row
    | upTo a createdAt => a.has key row && decide (key.createdAt ≤ createdAt)
    | byId communityId id => key.communityId == communityId && key.id == id

def Db.find (db : Db) (w : Where) : List (EventKey × Row) :=
  db.events.toList.filter fun (key, row) => w.has key row

/-- `ORDER BY created_at DESC, id ASC LIMIT 1` over the live rows of an address. -/
def Db.head (db : Db) (a : Address) : Option Stamp :=
  ((db.find (.address a)).map fun row => row.1.stamp).max?

/-! ## Statements -/

inductive DbError where
  | invalidTimestamp (secs : Int)
  | authEventRejected
  | ephemeralEventRejected (kind : Kind)
  /-- The transaction is rolled back and the call returns `was_inserted = false`. -/
  | notInserted
  | sqlx (text : String)
deriving DecidableEq

def staleNipRs : DbError := .sqlx "stale NIP-RS event rejected by durable watermark"

structure Vars where
  existing : Option Stamp
  watermark : Option Stamp
  found : List EventKey
  /-- The trigger has returned no row. -/
  skipped : Bool
  wasInserted : Bool
  deleted : Bool
  members : List (String × String)
  snapshot : Option Event
deriving DecidableEq

def Vars.init : Vars := ⟨none, none, [], false, false, false, [], none⟩

inductive Write where
  | event (key : EventKey) (row : Option Row)
  | inserted (key : EventKey) (row : Row)
  | watermark (c : Coordinate) (stamp : Stamp)
  | member (key : CommunityId × String) (row : Option RelayMember)

inductive Lock where
  /-- `pg_advisory_xact_lock`. -/
  | advisory (key : BitVec 64)
  | event (key : EventKey)
  | watermark (c : Coordinate)
  | member (key : CommunityId × String)
deriving DecidableEq

def Write.lock : Write → Lock
  | event key _ | inserted key _ => .event key
  | watermark c _ => .watermark c
  | member key _ => .member key

def Db.apply (db : Db) : Write → Db
  | .event key (some row) => { db with events := db.events.set key row }
  | .event key none => { db with events := db.events.remove key }
  | .inserted key row =>
    { db with events := db.events.set key row, history := db.history ++ [(key, row)] }
  | .watermark c stamp => { db with watermarks := db.watermarks.set c stamp }
  | .member key (some row) => { db with relayMembers := db.relayMembers.set key row }
  | .member key none => { db with relayMembers := db.relayMembers.remove key }

inductive Retire where
  | soft
  | hard

def Retire.apply (how : Retire) (row : Row) (now : Int) : Option Row :=
  match how with
  | soft => row.softDelete now
  | hard => none

inductive Sql where
  /-- `DateTime::from_timestamp`, before the transaction. -/
  | checkTime (secs : Int)
  /-- The kinds that `insert_event` refuses. -/
  | checkKind (kind : Kind)
  | lockAddress (a : Address)
  | readHead (a : Address)
  /-- Only for NIP-RS events. -/
  | readWatermark (c : Coordinate)
  | checkStale (incoming : Stamp)
  /-- The rows of an `UPDATE` or a `DELETE`. With `ifHead` it runs only when there is a head. -/
  | findRows (w : Where) (ifHead : Bool)
  | retireRows (w : Where) (how : Retire)
  /-- `guard_nip_rs_watermark`. -/
  | guardWatermark (key : EventKey) (row : Row)
  /-- `INSERT .. ON CONFLICT DO NOTHING`. A replacement rolls back on a conflict. -/
  | insertRow (key : EventKey) (row : Row) (rollback : Bool)
  | upsertWatermark (c : Coordinate) (stamp : Stamp)
  /-- `SELECT pubkey, role FROM relay_members .. ORDER BY created_at ASC`. -/
  | readMembers (communityId : CommunityId)
  | signSnapshot (sign : List (String × String) → Event)
  | insertSnapshot (communityId : CommunityId)
  | putMember (key : CommunityId × String) (row : Option RelayMember)

def triggerCoordinate (key : EventKey) (row : Row) : Option Coordinate :=
  if conforms row then
    row.dTag.map fun d => ⟨key.communityId, row.event.kind, row.event.pubkey, d⟩
  else none

def Db.membersOf (db : Db) (communityId : CommunityId) : List (String × String) :=
  let rows := db.relayMembers.toList.filter fun (key, _) => key.1 == communityId
  (rows.insertionSort fun x y => x.2.createdAt ≤ y.2.createdAt).map fun (key, row) =>
    (key.2, row.role)

def Sql.locks (stmt : Sql) (_now : Int) (v : Vars) (db : Db) : List (Lock × Mode) :=
  match stmt with
  | lockAddress a => [(.advisory a.lockKey, .exclusive)]
  | retireRows w _ =>
    (v.found.filter fun key => (db.events.get? key).any (w.has key)).map fun key =>
      (.event key, .exclusive)
  | guardWatermark key row =>
    (triggerCoordinate key row).toList.map fun c => (.watermark c, .exclusive)
  | insertRow key _ _ => [(.event key, .exclusive)]
  | upsertWatermark c _ => [(.watermark c, .exclusive)]
  | insertSnapshot communityId =>
    v.snapshot.toList.map fun e => (.event (e.key communityId), .exclusive)
  | putMember key _ => [(.member key, .exclusive)]
  | _ => []

def guardWatermark (key : EventKey) (row : Row) (v : Vars) (db : Db) :
    Except DbError (Vars × List Write) :=
  match triggerCoordinate key row with
  | none => .ok ({ v with skipped := false }, [])
  | some c =>
    let advanced := .ok ({ v with skipped := false }, [.watermark c key.stamp])
    match db.watermarks.get? c with
    | none => advanced
    | some accepted =>
      if accepted < key.stamp then advanced
      else if accepted = key.stamp then .ok ({ v with skipped := true }, [])
      else .error staleNipRs

def Sql.exec (stmt : Sql) (now : Int) (v : Vars) (db : Db) : Except DbError (Vars × List Write) :=
  match stmt with
  | checkTime secs =>
    if (fromTimestamp secs).isSome then .ok (v, []) else .error (.invalidTimestamp secs)
  | checkKind kind =>
    if kind = 22242 then .error .authEventRejected
    else if 20000 ≤ kind ∧ kind ≤ 29999 then .error (.ephemeralEventRejected kind)
    else .ok (v, [])
  | lockAddress _ => .ok (v, [])
  | readHead a => .ok ({ v with existing := db.head a }, [])
  | readWatermark c => .ok ({ v with watermark := db.watermarks.get? c }, [])
  | checkStale incoming =>
    if (v.existing.toList ++ v.watermark.toList).any (dominated incoming) then .error .notInserted
    else .ok (v, [])
  | findRows w ifHead =>
    .ok ({ v with found :=
      if ifHead && v.existing.isNone then [] else (db.find w).map Prod.fst }, [])
  | retireRows w how =>
    let rows := v.found.filterMap fun key =>
      ((db.events.get? key).filter (w.has key)).map fun row => (key, row)
    .ok ({ v with deleted := !rows.isEmpty },
      rows.map fun (key, row) => .event key (how.apply row now))
  | guardWatermark key row => Events.guardWatermark key row v db
  | insertRow key row rollback =>
    if v.skipped || (db.events.get? key).isSome then
      if rollback then .error .notInserted else .ok ({ v with wasInserted := false }, [])
    else .ok ({ v with wasInserted := true }, [.inserted key row])
  | upsertWatermark c stamp => .ok (v, [.watermark c stamp])
  | readMembers communityId => .ok ({ v with members := db.membersOf communityId }, [])
  | signSnapshot sign =>
    let e := sign v.members
    if (fromTimestamp e.time).isSome then .ok ({ v with snapshot := some e }, [])
    else .error (.invalidTimestamp e.time)
  | insertSnapshot communityId =>
    match v.snapshot with
    | none => .error .notInserted
    | some e =>
      if (db.events.get? (e.key communityId)).isSome then .error .notInserted
      else .ok ({ v with wasInserted := true },
        [.inserted (e.key communityId) ⟨e, none, extractDTag e, none⟩])
  | putMember key row => .ok (v, [.member key row])

/-! ## Plans -/

structure Replacement where
  address : Address
  event : Event
  channelId : Option Uuid
  dTag : Option String
  watermark : Option Coordinate
  superseded : Retire
  /-- The old rows are retired only when a head was read. -/
  ifHead : Bool

def Replacement.key (r : Replacement) : EventKey := r.event.key r.address.communityId

def Replacement.row (r : Replacement) : Row := ⟨r.event, r.channelId, r.dTag, none⟩

def Replacement.plan (r : Replacement) : List Sql :=
  [Sql.checkTime r.event.time, .lockAddress r.address, .readHead r.address] ++
    r.watermark.toList.map Sql.readWatermark ++
    [Sql.checkStale r.event.stamp, .findRows (.address r.address) r.ifHead,
      .retireRows (.address r.address) r.superseded, .guardWatermark r.key r.row,
      .insertRow r.key r.row true] ++
    r.watermark.toList.map (Sql.upsertWatermark · r.event.stamp)

def replaceAddressableEvent (communityId : CommunityId) (e : Event) (channelId : Option Uuid) :
    Replacement :=
  { address := ⟨communityId, e.kind, e.pubkey, .channel channelId⟩, event := e, channelId,
    dTag := extractDTag e, watermark := none, superseded := .soft, ifHead := false }

def replaceParameterizedEvent (communityId : CommunityId) (e : Event) (dTag : String)
    (channelId : Option Uuid) : Replacement :=
  let c : Coordinate := ⟨communityId, e.kind, e.pubkey, dTag⟩
  { address := c.address, event := e, channelId, dTag := some dTag,
    watermark := if isNipRs e dTag then some c else none,
    superseded := if isNipRs e dTag || isBuzzMeshStatus e dTag then .hard else .soft,
    ifHead := true }

def insertEvent (communityId : CommunityId) (e : Event) (channelId : Option Uuid) : List Sql :=
  let row : Row := ⟨e, channelId, extractDTag e, none⟩
  [.checkKind e.kind, .checkTime e.time, .guardWatermark (e.key communityId) row,
    .insertRow (e.key communityId) row false]

def softDeleteEvent (communityId : CommunityId) (id : EventId) : List Sql :=
  [.findRows (.byId communityId id) false, .retireRows (.byId communityId id) .soft]

def softDeleteByCoordinate (c : Coordinate) (deletionCreatedAtSecs : Int) : List Sql :=
  [.checkTime deletionCreatedAtSecs, .findRows (.upTo c.address deletionCreatedAtSecs) false,
    .retireRows (.upTo c.address deletionCreatedAtSecs) .soft]

def kindNip43MembershipList : Kind := 13534

/-- `sign` is the event that the relay's key makes of the tags, at the second in which it signs. -/
def publishNip43MembershipLocked (communityId : CommunityId) (relay : PubKey)
    (sign : List Tag → Event) : List Sql :=
  let a : Address := ⟨communityId, kindNip43MembershipList, relay, .channel none⟩
  let tags (members : List (String × String)) : List Tag :=
    ⟨"-", []⟩ :: members.map fun m => ⟨"member", [m.1, m.2]⟩
  [.lockAddress a, .readMembers communityId, .signSnapshot fun members => sign (tags members),
    .findRows (.address a) false, .retireRows (.address a) .soft, .insertSnapshot communityId]

def store {χ : Type} (plan : χ → List Sql) : Planned χ Sql Db Lock Vars Write DbError where
  apply := Db.apply
  vars := .init
  plan := plan
  locks := Sql.locks
  exec := Sql.exec
  lockOf := Write.lock

abbrev EventTx (χ : Type) := Tx χ Db Lock Vars Write DbError

end Vingilot.Events
