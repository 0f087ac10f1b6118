import Vingilot.Lib.Collections
import Vingilot.Core

/-! # Push leases of one community (`buzz-db/src/push.rs`, migrations 0012 and 0013)

Times are whole microseconds. `now` is the start of the transaction, as Postgres has it.
The five columns that are null together are one optional field. The subscriptions column is
only stored, so it is left out.
-/

namespace Vingilot.Push

abbrev EventId := BitVec 256

structure Address where
  author : BitVec 256
  installationId : String
deriving DecidableEq

structure LeaseVersion where
  sourceEventId : EventId
  sourceCreatedAt : Int
  generation : Int
  expiresAt : Int
deriving DecidableEq

structure ActiveLease where
  appProfile : String
  endpointHash : BitVec 256
  endpointGrant : String
  maxClass : String
deriving DecidableEq

structure Lease where
  version : LeaseVersion
  active : Bool
  endpointEnabled : Bool
  endpoint : Option ActiveLease
deriving DecidableEq

abbrev Leases := Table Address Lease

/-- `EXTRACT(EPOCH FROM now())::bigint`: to the nearest second, halves away from zero. -/
def epochSecs (now : Int) : Int :=
  if 0 ≤ now then (now + 500000) / 1000000 else -((-now + 500000) / 1000000)

/-- The row checks of migration 0012. The endpoint is there exactly when the lease is active. -/
def Lease.check (addr : Address) (l : Lease) : Bool :=
  let idLength := addr.installationId.utf8ByteSize
  l.active == l.endpoint.isSome && decide (0 < l.version.generation) &&
    decide (1 ≤ idLength ∧ idLength ≤ 64) &&
    l.endpoint.all fun e => ["silent", "default", "time_sensitive", "urgent"].contains e.maxClass

def Lease.eligible (now : Int) (l : Lease) : Bool :=
  l.active && l.endpointEnabled && decide (epochSecs now < l.version.expiresAt)

def eligibleLease (leases : Leases) (now : Int) : Bool :=
  leases.toList.any fun (_, l) => l.eligible now

/-- NIP-01 order: the later event wins, and of two at one time the smaller id. -/
def LeaseVersion.winsEvent (v current : LeaseVersion) : Bool :=
  decide (current.sourceCreatedAt < v.sourceCreatedAt) ||
    (v.sourceCreatedAt == current.sourceCreatedAt && decide (v.sourceEventId < current.sourceEventId))

inductive AcceptLeaseOutcome where
  | accepted
  | sourceEventCollision
  | staleEvent
  | staleGeneration
  | leaseQuotaExceeded
  | endpointAlreadyLeased
  | constraintViolation
deriving DecidableEq

inductive ReplaceLeaseOutcome where
  | accepted
  | staleEvent
  | staleGeneration

def staleVersion {ω : Type} (leases : Leases) (addr : Address) (version : LeaseVersion)
    (staleEvent staleGeneration : ω) : Option ω :=
  (leases.get? addr).bind fun current =>
    if !version.winsEvent current.version then some staleEvent
    else if version.generation ≤ current.version.generation then some staleGeneration
    else none

def endpointTaken (leases : Leases) (addr : Address) (active : ActiveLease) : Bool :=
  leases.toList.any fun (a, l) =>
    a.author == addr.author && a.installationId != addr.installationId && l.active &&
      l.endpoint.any fun e =>
        e.appProfile == active.appProfile && e.endpointHash == active.endpointHash

def newLease (version : LeaseVersion) (active : Option ActiveLease) : Lease :=
  ⟨version, active.isSome, true, active⟩

/-- The checks of `accept_lease_event` in their order, up to the upsert. The row to write, the
outcome of a refusal, or `none` for a database error. -/
def acceptLeaseEvent (leases : Leases) (now : Int) (addr : Address) (version : LeaseVersion)
    (active : Option ActiveLease) (maxActiveLeases : Int) : Option (Except AcceptLeaseOutcome Lease) :=
  match leases.toList.find? fun (_, l) => l.version.sourceEventId == version.sourceEventId with
  | some (a, _) => some (.error (if a ≠ addr then .sourceEventCollision else .staleEvent))
  | none =>
    match staleVersion leases addr version .staleEvent .staleGeneration with
    | some outcome => some (.error outcome)
    | none =>
      let expired := fun (x : Address × Lease) =>
        x.1.author == addr.author && x.2.active && decide (x.2.version.expiresAt ≤ epochSecs now)
      -- The clean-up keeps the endpoint columns of the rows it deactivates, so the row check
      -- fails on any row it meets.
      if leases.toList.any fun x =>
          expired x && !(Lease.check x.1 { x.2 with active := false, endpointEnabled := false }) then
        none
      else
        let activeCount := (leases.toList.filter fun (a, l) =>
          a.author == addr.author && l.active && a.installationId != addr.installationId).length
        let row := newLease version active
        if active.isSome && decide (maxActiveLeases ≤ activeCount) then
          some (.error .leaseQuotaExceeded)
        else if active.any (endpointTaken leases addr) then some (.error .endpointAlreadyLeased)
        else if !row.check addr then some (.error .constraintViolation)
        else some (.ok row)

/-- The upsert of `replace_lease`. `none` is a violated constraint. -/
def replaceLease (leases : Leases) (addr : Address) (version : LeaseVersion)
    (active : Option ActiveLease) : Option (Except ReplaceLeaseOutcome Lease) :=
  let row := newLease version active
  if !row.check addr then none
  else match staleVersion leases addr version .staleEvent .staleGeneration with
  | some outcome => some (.error outcome)
  | none =>
    let sourceTaken := leases.toList.any fun (a, l) =>
      a != addr && l.version.sourceEventId == version.sourceEventId
    if sourceTaken || active.any (endpointTaken leases addr) then none
    else some (.ok row)

end Vingilot.Push
