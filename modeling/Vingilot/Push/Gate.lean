import Vingilot.Lib.Machine
import Vingilot.Push.Lease

/-! # The push gate of one community (migration 0023, `buzz-db/src/push.rs`)

Event inserts hold the gate lock shared and lease activations hold it exclusive, both to
the end of their transaction. Each statement reads what is committed when it runs. `now()` is
the start of the transaction throughout.
-/

namespace Vingilot.Push

open Machine

abbrev TxId := Nat

def pushKinds : List Nat := [7, 9, 1059, 40007, 46010]

def backfillSecs : Int := 120

/-- An event row. `insertedBy` is the transaction that wrote it. It is not a column. -/
structure EventRow where
  kind : Nat
  receivedAt : Int
  deleted : Bool
  insertedBy : TxId
deriving DecidableEq

abbrev Events := Table EventId EventRow

/-- Where `enqueue_push_match_job` stands for the row just inserted. -/
inductive TriggerStage where
  | idle
  | locking (id : EventId) (row : EventRow)
  | checking (id : EventId) (row : EventRow)
  | enqueuing (id : EventId) (row : EventRow)
deriving DecidableEq

structure InsertTx where
  locked : Bool
  rows : List (EventId × EventRow)
  trigger : TriggerStage
deriving DecidableEq

inductive LeasePath where
  | acceptLeaseEvent (maxActiveLeases : Int)
  | replaceLease
deriving DecidableEq

structure Activation where
  addr : Address
  version : LeaseVersion
  endpoint : ActiveLease
  path : LeasePath
deriving DecidableEq

inductive ActivateStage where
  | begun
  | locked
  | written (lease : Lease)
  | backfilled (lease : Lease)
deriving DecidableEq

inductive TxBody where
  | insert (t : InsertTx)
  | activate (a : Activation) (stage : ActivateStage)
deriving DecidableEq

structure Tx where
  now : Int
  jobs : List EventId
  body : TxBody
deriving DecidableEq

structure World where
  clock : Int
  leases : Leases
  events : Events
  jobs : List EventId
  txs : Table TxId Tx
  started : TxId

def World.init (clock : Int) : World := ⟨clock, ∅, ∅, [], ∅, 0⟩

/-! ## Locks and pending rows -/

def Tx.holdsShared (t : Tx) : Bool :=
  match t.body with
  | .insert i => i.locked
  | .activate .. => false

def Tx.holdsExclusive (t : Tx) : Bool :=
  match t.body with
  | .insert _ => false
  | .activate _ .begun => false
  | .activate .. => true

def Tx.pendingRows (t : Tx) : List (EventId × EventRow) :=
  match t.body with
  | .insert i =>
    match i.trigger with
    | .idle => i.rows
    | .locking id row => i.rows ++ [(id, row)]
    | .checking id row => i.rows ++ [(id, row)]
    | .enqueuing id row => i.rows ++ [(id, row)]
  | .activate .. => []

/-- Some open transaction other than `tx` has the property. -/
def World.other (s : World) (tx : TxId) (p : Tx → Bool) : Bool :=
  s.txs.toList.any fun (id, t) => id != tx && p t

/-- `INSERT INTO push_match_queue .. ON CONFLICT DO NOTHING`, as the transaction sees it. -/
def enqueueJob (committed pending : List EventId) (id : EventId) : List EventId :=
  if id ∈ committed then pending else pushNew pending id

/-- The events that `backfill_push_match_jobs` selects. -/
def backfillIds (events : Events) (now : Int) : List EventId :=
  events.toList.filterMap fun (id, row) =>
    if row.kind ∈ pushKinds ∧ row.deleted = false ∧ now - backfillSecs * 1000000 < row.receivedAt
    then some id else none

def writeLease (leases : Leases) (now : Int) (a : Activation) : Option Lease :=
  match a.path with
  | .acceptLeaseEvent maxActive =>
    match acceptLeaseEvent leases now a.addr a.version (some a.endpoint) maxActive with
    | some (.ok lease) => some lease
    | _ => none
  | .replaceLease =>
    match replaceLease leases a.addr a.version (some a.endpoint) with
    | some (.ok lease) => some lease
    | _ => none

/-! ## Steps -/

inductive Action where
  | advance (micros : Nat)
  | beginInsert
  | beginActivate (a : Activation)
  | insert (tx : TxId) (id : EventId) (kind : Nat) (receivedAt : Int)
  | lockShared (tx : TxId)
  | check (tx : TxId)
  | enqueue (tx : TxId)
  | lockExclusive (tx : TxId)
  | write (tx : TxId)
  | backfill (tx : TxId)
  | commit (tx : TxId)
  | abort (tx : TxId)
  /-- A lease is revoked or its endpoint disabled. This never makes a lease eligible. -/
  | revoke (addr : Address) (version : LeaseVersion)
  | disableEndpoint (addr : Address) (generation : Int)
  | deleteEvent (id : EventId)

def World.setTx (s : World) (tx : TxId) (t : Tx) : World := { s with txs := s.txs.set tx t }

def World.closeTx (s : World) (tx : TxId) : World := { s with txs := s.txs.remove tx }

def World.begin (s : World) (body : TxBody) : World :=
  { s with txs := s.txs.set s.started ⟨s.clock, [], body⟩, started := s.started + 1 }

def insertRows (events : Events) (rows : List (EventId × EventRow)) : Events :=
  rows.foldl (fun events (id, row) => events.set id row) events

def stepInsert (s : World) (tx : TxId) (t : Tx) (i : InsertTx) : Action → Option World
  | .insert _ id kind receivedAt =>
    let row : EventRow := ⟨kind, receivedAt, false, tx⟩
    -- A key that is taken inserts nothing. One that another transaction holds makes it wait.
    if i.trigger ≠ .idle ∨ s.events.get? id ≠ none ∨ id ∈ i.rows.map Prod.fst ∨
        s.other tx fun t => t.pendingRows.any fun x => x.1 == id then none
    else if kind ∈ pushKinds then
      some (s.setTx tx { t with body := .insert { i with trigger := .locking id row } })
    else some (s.setTx tx { t with body := .insert { i with rows := i.rows ++ [(id, row)] } })
  | .lockShared _ =>
    match i.trigger with
    | .locking id row =>
      if s.other tx Tx.holdsExclusive then none
      else
        some (s.setTx tx { t with
          body := .insert { i with locked := true, trigger := .checking id row } })
    | _ => none
  | .check _ =>
    match i.trigger with
    | .checking id row =>
      if eligibleLease s.leases t.now then
        some (s.setTx tx { t with body := .insert { i with trigger := .enqueuing id row } })
      else
        some (s.setTx tx { t with
          body := .insert { i with rows := i.rows ++ [(id, row)], trigger := .idle } })
    | _ => none
  | .enqueue _ =>
    match i.trigger with
    | .enqueuing id row =>
      if s.other tx fun t => t.jobs.contains id then none
      else
        some (s.setTx tx ⟨t.now, enqueueJob s.jobs t.jobs id,
          .insert { i with rows := i.rows ++ [(id, row)], trigger := .idle }⟩)
    | _ => none
  | .commit _ =>
    if i.trigger = .idle then
      some { s.closeTx tx with
        events := insertRows s.events i.rows
        jobs := s.jobs ++ t.jobs }
    else none
  | .abort _ => some (s.closeTx tx)
  | _ => none

def stepActivate (s : World) (tx : TxId) (t : Tx) (a : Activation) (stage : ActivateStage) :
    Action → Option World
  | .lockExclusive _ =>
    if stage = .begun ∧ !(s.other tx fun t => t.holdsShared || t.holdsExclusive) then
      some (s.setTx tx { t with body := .activate a .locked })
    else none
  | .write _ =>
    if stage = .locked then
      match writeLease s.leases t.now a with
      | some lease => some (s.setTx tx { t with body := .activate a (.written lease) })
      | none => some (s.closeTx tx)
    else none
  | .backfill _ =>
    match stage with
    | .written lease =>
      let ids := backfillIds s.events t.now
      if s.other tx fun t => t.jobs.any fun id => ids.contains id then none
      else
        some (s.setTx tx ⟨t.now, ids.foldl (enqueueJob s.jobs) t.jobs,
          .activate a (.backfilled lease)⟩)
    | _ => none
  | .commit _ =>
    match stage with
    | .backfilled lease =>
      some { s.closeTx tx with leases := s.leases.set a.addr lease, jobs := s.jobs ++ t.jobs }
    | _ => none
  | .abort _ => some (s.closeTx tx)
  | _ => none

def World.leaseLocked (s : World) (addr : Address) : Bool :=
  s.txs.toList.any fun (_, t) =>
    match t.body with
    | .activate a (.written _) => a.addr == addr
    | .activate a (.backfilled _) => a.addr == addr
    | _ => false

def Action.tx : Action → Option TxId
  | .insert tx .. => some tx
  | .lockShared tx => some tx
  | .check tx => some tx
  | .enqueue tx => some tx
  | .lockExclusive tx => some tx
  | .write tx => some tx
  | .backfill tx => some tx
  | .commit tx => some tx
  | .abort tx => some tx
  | _ => none

def stepOutside (s : World) : Action → Option World
  | .advance micros => some { s with clock := s.clock + micros }
  | .beginInsert => some (s.begin (.insert ⟨false, [], .idle⟩))
  | .beginActivate a => some (s.begin (.activate a .begun))
  | .revoke addr version =>
    if s.leaseLocked addr then none
    else
      match replaceLease s.leases addr version none with
      | some (.ok lease) => some { s with leases := s.leases.set addr lease }
      | _ => none
  | .disableEndpoint addr generation =>
    if s.leaseLocked addr then none
    else
      some { s with leases := s.leases.alter addr fun row => row.map fun l =>
        if l.version.generation = generation ∧ l.active ∧ l.endpointEnabled then
          { l with endpointEnabled := false }
        else l }
  | .deleteEvent id =>
    some { s with events := s.events.alter id fun row => row.map fun r => { r with deleted := true } }
  | _ => none

def step (s : World) (action : Action) : Option World :=
  match action.tx with
  | none => stepOutside s action
  | some tx =>
    match s.txs.get? tx with
    | none => none
    | some t =>
      match t.body with
      | .insert i => stepInsert s tx t i action
      | .activate a stage => stepActivate s tx t a stage action

end Vingilot.Push
