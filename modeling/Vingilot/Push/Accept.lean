import Vingilot.Lib.Transactions
import Vingilot.Push.Lease

/-! # Accepting lease events (`accept_lease_event` of `buzz-db/src/push.rs`)

One transaction takes the lock of its address and the lock of its author, checks, and then
replaces the kind-30350 event and the lease row together. Its caller builds the version from the
event itself, so the event's id is the version's source. Leaving the function without a commit
rolls everything back.
-/

namespace Vingilot.Push.Accept

open Transactions

/-- The primary key of `events` within a community. -/
structure EventKey where
  createdAt : Int
  id : EventId
deriving DecidableEq

structure EventRow where
  kind : Nat
  pubkey : BitVec 256
  dTag : Option String
  deleted : Bool

structure Tables where
  leases : Leases
  events : Table EventKey EventRow

abbrev Db := CommunityId → Tables

structure LeaseCall where
  community : CommunityId
  addr : Address
  version : LeaseVersion
  active : Option ActiveLease

inductive Call where
  | accept (call : LeaseCall)
  | store (community : CommunityId) (key : EventKey) (row : EventRow)

inductive Refusal where
  | outcome (o : AcceptLeaseOutcome)
  | databaseError
deriving DecidableEq

inductive Write where
  | lease (community : CommunityId) (addr : Address) (row : Lease)
  | event (community : CommunityId) (key : EventKey) (row : EventRow)

inductive Lock where
  | address (community : CommunityId) (addr : Address)
  | author (community : CommunityId) (author : BitVec 256)
  | gate (community : CommunityId)
  | leaseRow (community : CommunityId) (addr : Address)
  | source (community : CommunityId) (id : EventId)
  | endpoint (community : CommunityId) (author : BitVec 256) (appProfile : String)
      (endpointHash : BitVec 256)
  | eventRow (community : CommunityId) (key : EventKey)
deriving DecidableEq

def Write.apply (db : Db) : Write → Db
  | .lease c addr row => Function.update db c { db c with leases := (db c).leases.set addr row }
  | .event c key row => Function.update db c { db c with events := (db c).events.set key row }

abbrev Stmt := Statement Db Lock Unit Write Refusal

def exclusive (locks : List Lock) : List (Lock × Mode) := locks.map fun l => (l, .exclusive)

/-! ## The statements -/

def pushLeaseKind : Nat := 30350

def LeaseCall.key (call : LeaseCall) : EventKey :=
  ⟨call.version.sourceCreatedAt, call.version.sourceEventId⟩

def EventRow.liveAt (addr : Address) (r : EventRow) : Bool :=
  r.kind == pushLeaseKind && r.pubkey == addr.author && r.dTag == some addr.installationId &&
    !r.deleted

/-- Times that both `DateTime::from_timestamp` and a `timestamptz` can hold. -/
def timestampFits (secs : Int) : Bool :=
  decide (-210866803200 ≤ secs) && decide (secs ≤ 8210266876799)

def expired (now : Int) (author : BitVec 256) (x : Address × Lease) : Bool :=
  x.1.author == author && x.2.active && decide (x.2.version.expiresAt ≤ epochSecs now)

def Lease.deactivated (l : Lease) : Lease := { l with active := false, endpointEnabled := false }

def activeElsewhere (leases : Leases) (addr : Address) : Nat :=
  (leases.toList.filter fun (a, l) =>
    a.author == addr.author && l.active && a.installationId != addr.installationId).length

def sourceTaken (leases : Leases) (addr : Address) (id : EventId) : Bool :=
  leases.toList.any fun (a, l) => a != addr && l.version.sourceEventId == id

namespace LeaseCall

variable (call : LeaseCall)

def row : Lease := newLease call.version call.active

def lockAddress : Stmt := ⟨fun _ _ => exclusive [.address call.community call.addr], fun _ _ => .ok ((), [])⟩

def lockAuthor : Stmt :=
  ⟨fun _ _ => exclusive [.author call.community call.addr.author], fun _ _ => .ok ((), [])⟩

def lockGate : Stmt :=
  ⟨fun _ _ => if call.active.isSome then exclusive [.gate call.community] else [],
    fun _ _ => .ok ((), [])⟩

def checkSource : Stmt where
  locks _ _ := []
  exec _ db :=
    match (db call.community).leases.toList.find? fun (_, l) =>
      l.version.sourceEventId == call.version.sourceEventId with
    | some (a, _) =>
      .error (.outcome (if a ≠ call.addr then .sourceEventCollision else .staleEvent))
    | none => .ok ((), [])

def checkCurrent : Stmt where
  locks _ db :=
    match (db call.community).leases.get? call.addr with
    | some _ => exclusive [.leaseRow call.community call.addr]
    | none => []
  exec _ db :=
    match staleVersion (db call.community).leases call.addr call.version
      AcceptLeaseOutcome.staleEvent .staleGeneration with
    | some o => .error (.outcome o)
    | none => .ok ((), [])

def cleanUp (now : Int) : Stmt where
  locks _ db :=
    exclusive (((db call.community).leases.toList.filter (expired now call.addr.author)).map
      fun x => .leaseRow call.community x.1)
  exec _ db :=
    let rows := ((db call.community).leases.toList.filter (expired now call.addr.author)).map
      fun x => (x.1, Lease.deactivated x.2)
    if rows.all fun x => x.2.check x.1 then
      .ok ((), rows.map fun x => .lease call.community x.1 x.2)
    else .error .databaseError

def checkQuota (maxActiveLeases : Int) : Stmt where
  locks _ _ := []
  exec _ db :=
    if call.active.isSome ∧
        maxActiveLeases ≤ activeElsewhere (db call.community).leases call.addr then
      .error (.outcome .leaseQuotaExceeded)
    else .ok ((), [])

def checkEndpoint : Stmt where
  locks _ _ := []
  exec _ db :=
    if call.active.any (endpointTaken (db call.community).leases call.addr) then
      .error (.outcome .endpointAlreadyLeased)
    else .ok ((), [])

def retired (db : Db) : List (EventKey × EventRow) :=
  ((db call.community).events.toList.filter fun x => x.2.liveAt call.addr).map
    fun x => (x.1, { x.2 with deleted := true })

def retire : Stmt where
  locks _ db := exclusive ((call.retired db).map fun x => .eventRow call.community x.1)
  exec _ db := .ok ((), (call.retired db).map fun x => .event call.community x.1 x.2)

def eventRow : EventRow := ⟨pushLeaseKind, call.addr.author, some call.addr.installationId, false⟩

def insertEvent : Stmt where
  locks _ _ := exclusive [.eventRow call.community call.key]
  exec _ db :=
    if !timestampFits call.version.sourceCreatedAt then .error .databaseError
    else if ((db call.community).events.get? call.key).isSome then
      .error (.outcome .constraintViolation)
    else .ok ((), [.event call.community call.key call.eventRow])

def upsertLease : Stmt where
  locks _ _ :=
    exclusive ([.leaseRow call.community call.addr,
      .source call.community call.version.sourceEventId] ++
      call.active.toList.map fun e =>
        .endpoint call.community call.addr.author e.appProfile e.endpointHash)
  exec _ db :=
    if !call.row.check call.addr then .error (.outcome .constraintViolation)
    else if sourceTaken (db call.community).leases call.addr call.version.sourceEventId then
      .error (.outcome .sourceEventCollision)
    else if call.active.any (endpointTaken (db call.community).leases call.addr) then
      .error (.outcome .endpointAlreadyLeased)
    else .ok ((), [.lease call.community call.addr call.row])

/-- The statements of `accept_lease_event`. The backfill at the end writes match jobs only, so it
is left out. -/
def program (maxActiveLeases : Int) (now : Int) : List Stmt :=
  [call.lockAddress, call.lockAuthor, call.lockGate, call.checkSource, call.checkCurrent,
    call.cleanUp now, call.checkQuota maxActiveLeases, call.checkEndpoint, call.retire,
    call.insertEvent, call.upsertLease]

end LeaseCall

def storeEvent (c : CommunityId) (key : EventKey) (row : EventRow) : Stmt where
  locks _ _ := exclusive [.eventRow c key]
  exec _ db :=
    if row.kind = pushLeaseKind ∨ ((db c).events.get? key).isSome then .error .databaseError
    else .ok ((), [.event c key row])

def system (maxActiveLeases : Int) : System Call Db Lock Unit Write Refusal where
  apply := Write.apply
  vars := ()
  program
    | .accept call, now => call.program maxActiveLeases now
    | .store c key row, _ => [storeEvent c key row]

abbrev World := Transactions.World Call Db Lock Unit Write Refusal

def emptyDb : Db := fun _ => ⟨∅, ∅⟩

def World.start (clock : Int) : World := Transactions.World.init clock emptyDb

end Vingilot.Push.Accept
