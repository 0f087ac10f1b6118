import Vingilot.Lib.Machine
import Vingilot.Push.Gate

/-! # The wake outbox (`buzz-db/src/push.rs`, migration 0012)

`enqueue_wakes` is a transaction of three statements, and the lease rows it has read stay locked
to its end. The other functions are single statements, so each is one step and `now()` is the
clock of that step. A statement that waits for a row or a key of an open transaction is not
possible yet.
-/

namespace Vingilot.Push.Outbox

open Machine

inductive WakeState where
  | pending
  | sending
  | delivered
  | failed
deriving DecidableEq

/-- A row of `push_wake_outbox`. -/
structure Wake where
  addr : Address
  leaseGeneration : Int
  endpointHash : BitVec 256
  eventId : EventId
  wakeClass : String
  expiresAt : Int
  state : WakeState
  attempts : Nat
  nextAttemptAt : Int
  leaseUntil : Option Int
  claimId : Option Uuid
  createdAt : Int
deriving DecidableEq

abbrev WakeKey := BitVec 256 × EventId

def Wake.key (w : Wake) : WakeKey := (w.endpointHash, w.eventId)

def Wake.unfinished (w : Wake) : Bool := w.state == .pending || w.state == .sending

/-- The tables of one community. `events` has the channel of each event that is not deleted. -/
structure Tables where
  leases : Leases
  outbox : Table Uuid Wake
  events : Table EventId (Option Uuid)

structure WakeRequest where
  addr : Address
  leaseGeneration : Int
  eventId : EventId
  wakeClass : String
  expiresAt : Int
deriving DecidableEq

inductive EnqueueWakeOutcome where
  | enqueued (id : Uuid)
  | duplicate (id : Uuid)
  | inactiveLease
deriving DecidableEq

structure ClaimedWake where
  id : Uuid
  claimId : Uuid
  eventId : EventId
  channelId : Option Uuid
  addr : Address
  leaseGeneration : Int
  endpointGrant : String
  wakeClass : String
  expiresAt : Int
  attempt : Nat
deriving DecidableEq

inductive RevalidateWakeOutcome where
  | deliver (wake : ClaimedWake)
  | suppressed
deriving DecidableEq

/-! ## Enqueueing -/

def resolve (leases : Leases) (now : Int) (r : WakeRequest) : Option (BitVec 256) :=
  (leases.get? r.addr).bind fun l =>
    if l.eligible now ∧ l.version.generation = r.leaseGeneration then
      l.endpoint.map ActiveLease.endpointHash
    else none

def newWake (now : Int) (r : WakeRequest) (endpointHash : BitVec 256) : Wake where
  addr := r.addr
  leaseGeneration := r.leaseGeneration
  endpointHash := endpointHash
  eventId := r.eventId
  wakeClass := r.wakeClass
  expiresAt := r.expiresAt
  state := .pending
  attempts := 0
  nextAttemptAt := now
  leaseUntil := none
  claimId := none
  createdAt := now

/-- The row checks of migration 0012 that a new row can fail. -/
def Wake.check (w : Wake) : Bool :=
  decide (0 < w.leaseGeneration) &&
    ["silent", "default", "time_sensitive", "urgent"].contains w.wakeClass

def eligibleRequests (requests : List WakeRequest) (resolved : List (Option (BitVec 256))) :
    List (WakeRequest × BitVec 256) :=
  (requests.zip resolved).filterMap fun x => x.2.map fun h => (x.1, h)

def hasKey (rows : List (Uuid × Wake)) (key : WakeKey) : Bool := rows.any fun x => x.2.key == key

/-- The multi-row insert with `ON CONFLICT DO NOTHING`. `ids` are the ids that the database makes
up for the new rows. `none` is a violated constraint. The row check of a request whose key is taken
is left out: the database makes it before it looks for the conflict. -/
def insertWakes (outbox : Table Uuid Wake) (now : Int) :
    List (WakeRequest × BitVec 256) → List Uuid → List (Uuid × Wake) → Option (List (Uuid × Wake))
  | [], _, rows => some rows
  | (r, h) :: rest, ids, rows =>
    if hasKey outbox.toList (h, r.eventId) || hasKey rows (h, r.eventId) then
      insertWakes outbox now rest ids rows
    else
      match ids with
      | [] => none
      | id :: ids =>
        if (outbox.get? id).isSome || (rows.map Prod.fst).contains id ||
            !(newWake now r h).check then none
        else insertWakes outbox now rest ids (rows ++ [(id, newWake now r h)])

/-- The ids of the duplicate look-up, for the keys of the eligible requests. It only runs when the
insert has skipped a request. -/
def duplicateIds (outbox : Table Uuid Wake) (eligible : List (WakeRequest × BitVec 256))
    (rows : List (Uuid × Wake)) : List (WakeKey × Uuid) :=
  if rows.length < eligible.length then
    (outbox.toList ++ rows).filterMap fun x =>
      if eligible.any fun y => (y.2, y.1.eventId) == x.2.key then some (x.2.key, x.1) else none
  else []

def jobId (rows : List (Uuid × Wake)) (found : List (WakeKey × Uuid)) (key : WakeKey) :
    Option Uuid :=
  ((rows.find? fun x => x.2.key == key).map Prod.fst).or
    ((found.find? fun x => x.1 == key).map Prod.snd)

/-- One outcome for each request, in order. The first request of a new row reports it as
enqueued. `none` stands for the error of a key without a job. -/
def outcomes (rows : List (Uuid × Wake)) (found : List (WakeKey × Uuid)) :
    List (WakeRequest × Option (BitVec 256)) → List WakeKey → Option (List EnqueueWakeOutcome)
  | [], _ => some []
  | (_, none) :: rest, reported =>
    (outcomes rows found rest reported).map (.inactiveLease :: ·)
  | (r, some h) :: rest, reported => do
    let key := (h, r.eventId)
    let id ← jobId rows found key
    if hasKey rows key ∧ key ∉ reported then
      (outcomes rows found rest (key :: reported)).map (.enqueued id :: ·)
    else (outcomes rows found rest reported).map (.duplicate id :: ·)

/-! ## The single statements -/

def Wake.lease (leases : Leases) (w : Wake) : Option Lease :=
  (leases.get? w.addr).filter fun l =>
    l.version.generation == w.leaseGeneration &&
      l.endpoint.any fun e => e.endpointHash == w.endpointHash

def toClaimedWake (t : Tables) (id claimId : Uuid) (w : Wake) : Option ClaimedWake := do
  let l ← w.lease t.leases
  let e ← l.endpoint
  let channelId ← t.events.get? w.eventId
  return ⟨id, claimId, w.eventId, channelId, w.addr, w.leaseGeneration, e.endpointGrant,
    w.wakeClass, w.expiresAt, w.attempts⟩

def Wake.sendable (t : Tables) (now : Int) (w : Wake) : Bool :=
  (t.events.get? w.eventId).isSome && decide (epochSecs now < w.expiresAt) &&
    (w.lease t.leases).any fun l => l.eligible now

def Wake.due (now : Int) (w : Wake) : Bool :=
  decide (w.nextAttemptAt ≤ now) &&
    (w.state == .pending || (w.state == .sending && w.leaseUntil.any fun u => decide (u < now)))

/-- `ORDER BY next_attempt_at, created_at, id`. -/
def claimOrder (x y : Uuid × Wake) : Bool :=
  decide (x.2.nextAttemptAt < y.2.nextAttemptAt) ||
    (x.2.nextAttemptAt == y.2.nextAttemptAt &&
      (decide (x.2.createdAt < y.2.createdAt) ||
        (x.2.createdAt == y.2.createdAt && decide (x.1 ≤ y.1))))

def Wake.claimed (claimId : Uuid) (leaseUntil : Int) (w : Wake) : Wake :=
  { w with
    state := .sending, claimId := some claimId, leaseUntil := some leaseUntil
    attempts := w.attempts + 1 }

def candidates (t : Tables) (now : Int) (limit : Nat) : List (Uuid × Wake) :=
  ((t.outbox.toList.filter fun x => x.2.sendable t now && x.2.due now).mergeSort claimOrder).take
    limit

def claimDueWakes (t : Tables) (now : Int) (limit : Nat) (claimId : Uuid) (leaseUntil : Int) :
    Tables × List ClaimedWake :=
  let rows := (candidates t now limit).map fun x => (x.1, x.2.claimed claimId leaseUntil)
  ({ t with outbox := t.outbox.setAll rows },
    rows.filterMap fun x => toClaimedWake t x.1 claimId x.2)

def revalidateWakeForSend (t : Tables) (now : Int) (id claimId : Uuid) : RevalidateWakeOutcome :=
  match t.outbox.get? id with
  | none => .suppressed
  | some w =>
    if w.claimId = some claimId ∧ w.state = .sending ∧
        (w.leaseUntil.any fun u => decide (now ≤ u)) ∧ w.sendable t now then
      (toClaimedWake t id claimId w).elim .suppressed .deliver
    else .suppressed

def updateClaimed (outbox : Table Uuid Wake) (id claimId : Uuid) (f : Wake → Wake) :
    Table Uuid Wake :=
  outbox.alter id fun row => row.map fun w =>
    if w.claimId = some claimId ∧ w.state = .sending then
      { f w with claimId := none, leaseUntil := none }
    else w

def completeWake (outbox : Table Uuid Wake) (id claimId : Uuid) : Table Uuid Wake :=
  updateClaimed outbox id claimId fun w => { w with state := .delivered }

def retryWake (outbox : Table Uuid Wake) (id claimId : Uuid) (nextAttemptAt : Int) :
    Table Uuid Wake :=
  updateClaimed outbox id claimId fun w => { w with state := .pending, nextAttemptAt }

def failWake (outbox : Table Uuid Wake) (id claimId : Uuid) : Table Uuid Wake :=
  updateClaimed outbox id claimId fun w => { w with state := .failed }

def disableEndpointGeneration (leases : Leases) (addr : Address) (generation : Int) : Leases :=
  leases.alter addr fun row => row.map fun l =>
    if l.version.generation = generation ∧ l.active ∧ l.endpointEnabled then
      { l with endpointEnabled := false }
    else l

def rotateLease (leases : Leases) (now : Int) (addr : Address) (version : LeaseVersion)
    (active : Option ActiveLease) : LeasePath → Option Lease
  | .acceptLeaseEvent maxActive =>
    match acceptLeaseEvent leases now addr version active maxActive with
    | some (.ok lease) => some lease
    | _ => none
  | .replaceLease =>
    match replaceLease leases addr version active with
    | some (.ok lease) => some lease
    | _ => none

/-! ## The machine -/

inductive EnqueueStage where
  | begun
  | locked (resolved : List (Option (BitVec 256)))
  | inserted (resolved : List (Option (BitVec 256))) (rows : List (Uuid × Wake))
  | found (resolved : List (Option (BitVec 256))) (rows : List (Uuid × Wake))
      (found : List (WakeKey × Uuid))
deriving DecidableEq

/-- An open `enqueue_wakes`. `locked` are the addresses of the lease rows it has locked. -/
structure Enqueue where
  community : CommunityId
  now : Int
  requests : List WakeRequest
  locked : List Address
  stage : EnqueueStage

def Enqueue.rows (e : Enqueue) : List (Uuid × Wake) :=
  match e.stage with
  | .begun => []
  | .locked _ => []
  | .inserted _ rows => rows
  | .found _ rows _ => rows

inductive Answer where
  | enqueued (community : CommunityId) (requests : List WakeRequest)
      (outcomes : Option (List EnqueueWakeOutcome))
  | claimed (community : CommunityId) (wakes : List ClaimedWake)
  | revalidated (community : CommunityId) (id claimId : Uuid) (outcome : RevalidateWakeOutcome)
  | updated (community : CommunityId) (id claimId : Uuid) (changed : Bool)
deriving DecidableEq

structure World where
  clock : Int
  db : CommunityId → Tables
  enqueues : Table Nat Enqueue
  started : Nat
  answers : List Answer

inductive Finish where
  | complete
  | retry (nextAttemptAt : Int)
  | fail

inductive Action where
  | advance (micros : Nat)
  | rotate (community : CommunityId) (addr : Address) (version : LeaseVersion)
      (active : Option ActiveLease) (path : LeasePath)
  | disable (community : CommunityId) (addr : Address) (generation : Int)
  | storeEvent (community : CommunityId) (id : EventId) (channelId : Option Uuid)
  | deleteEvent (community : CommunityId) (id : EventId)
  | beginEnqueue (community : CommunityId) (requests : List WakeRequest)
  | lockLeases (tx : Nat)
  | insert (tx : Nat) (ids : List Uuid)
  | findDuplicates (tx : Nat)
  | commit (tx : Nat)
  | abort (tx : Nat)
  | claim (community : CommunityId) (limit : Nat) (claimId : Uuid) (leaseUntil : Int)
  | revalidate (community : CommunityId) (id claimId : Uuid)
  | finish (community : CommunityId) (id claimId : Uuid) (how : Finish)

def World.init (clock : Int) : World := ⟨clock, fun _ => ⟨∅, ∅, ∅⟩, ∅, 0, []⟩

def World.setTables (s : World) (c : CommunityId) (t : Tables) : World :=
  { s with db := Function.update s.db c t }

def World.answer (s : World) (a : Answer) : World := { s with answers := s.answers ++ [a] }

def World.other (s : World) (tx : Nat) (c : CommunityId) (p : Enqueue → Bool) : Bool :=
  s.enqueues.toList.any fun (id, e) => id != tx && e.community == c && p e

def World.leaseLocked (s : World) (c : CommunityId) (addr : Address) : Bool :=
  s.enqueues.toList.any fun (_, e) => e.community == c && e.locked.contains addr

def finishWake (outbox : Table Uuid Wake) (id claimId : Uuid) : Finish → Table Uuid Wake
  | .complete => completeWake outbox id claimId
  | .retry nextAttemptAt => retryWake outbox id claimId nextAttemptAt
  | .fail => failWake outbox id claimId

def holdsClaim (outbox : Table Uuid Wake) (id claimId : Uuid) : Bool :=
  (outbox.get? id).any fun w => w.claimId == some claimId && w.state == .sending

/-- The statements of an open `enqueue_wakes`. -/
def stepEnqueue (s : World) (tx : Nat) (e : Enqueue) : Action → Option World
  | .lockLeases _ =>
    let t := s.db e.community
    let addrs := (e.requests.map WakeRequest.addr).filter fun a =>
      (t.leases.get? a).any fun l => l.eligible e.now
    if e.stage ≠ .begun ∨ s.other tx e.community fun o => addrs.any o.locked.contains then none
    else
      some { s with
        enqueues := s.enqueues.set tx { e with
          locked := addrs, stage := .locked (e.requests.map (resolve t.leases e.now)) } }
  | .insert _ ids =>
    match e.stage with
    | .locked resolved =>
      let eligible := eligibleRequests e.requests resolved
      -- A key or an id that another open transaction inserts makes this one wait.
      if s.other tx e.community fun o => o.rows.any fun x =>
          ids.contains x.1 || eligible.any fun y => (y.2, y.1.eventId) == x.2.key then none
      else
        match insertWakes (s.db e.community).outbox e.now eligible ids [] with
        | none => some { s with enqueues := s.enqueues.remove tx }
        | some rows =>
          some { s with enqueues := s.enqueues.set tx { e with stage := .inserted resolved rows } }
    | _ => none
  | .findDuplicates _ =>
    match e.stage with
    | .inserted resolved rows =>
      let found := duplicateIds (s.db e.community).outbox (eligibleRequests e.requests resolved) rows
      some { s with enqueues := s.enqueues.set tx { e with stage := .found resolved rows found } }
    | _ => none
  | .commit _ =>
    match e.stage with
    | .found resolved rows found =>
      let t := s.db e.community
      some (({ s with enqueues := s.enqueues.remove tx }.setTables e.community
        { t with outbox := t.outbox.setAll rows }).answer
          (.enqueued e.community e.requests (outcomes rows found (e.requests.zip resolved) [])))
    | _ => none
  | .abort _ => some { s with enqueues := s.enqueues.remove tx }
  | _ => none

def Action.tx : Action → Option Nat
  | .lockLeases tx => some tx
  | .insert tx _ => some tx
  | .findDuplicates tx => some tx
  | .commit tx => some tx
  | .abort tx => some tx
  | _ => none

def stepSingle (s : World) : Action → Option World
  | .advance micros => some { s with clock := s.clock + micros }
  | .rotate c addr version active path =>
    if s.leaseLocked c addr then none
    else
      (rotateLease (s.db c).leases s.clock addr version active path).map fun lease =>
        s.setTables c { s.db c with leases := (s.db c).leases.set addr lease }
  | .disable c addr generation =>
    if s.leaseLocked c addr then none
    else
      some (s.setTables c { s.db c with
        leases := disableEndpointGeneration (s.db c).leases addr generation })
  | .storeEvent c id channelId =>
    some (s.setTables c { s.db c with events := (s.db c).events.set id channelId })
  | .deleteEvent c id =>
    some (s.setTables c { s.db c with events := (s.db c).events.remove id })
  | .beginEnqueue c requests =>
    some { s with
      enqueues := s.enqueues.set s.started ⟨c, s.clock, requests, [], .begun⟩
      started := s.started + 1 }
  | .claim c limit claimId leaseUntil =>
    let claimed := claimDueWakes (s.db c) s.clock limit claimId leaseUntil
    some ((s.setTables c claimed.1).answer (.claimed c claimed.2))
  | .revalidate c id claimId =>
    some (s.answer (.revalidated c id claimId (revalidateWakeForSend (s.db c) s.clock id claimId)))
  | .finish c id claimId how =>
    some ((s.setTables c { s.db c with outbox := finishWake (s.db c).outbox id claimId how }).answer
      (.updated c id claimId (holdsClaim (s.db c).outbox id claimId)))
  | _ => none

def step (s : World) (action : Action) : Option World :=
  match action.tx with
  | none => stepSingle s action
  | some tx => (s.enqueues.get? tx).bind fun e => stepEnqueue s tx e action

end Vingilot.Push.Outbox
