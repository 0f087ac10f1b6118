import Mathlib.Data.List.MinMax
import Vingilot.Audit.Entry
import Vingilot.Lib.Collections

/-!
# The audit log (`buzz-audit/src/service.rs`)

Calls of `log` by any number of processes, statement by statement. The advisory lock of a community
is a number that Postgres derives from its id, so two communities may share one.
-/

namespace Vingilot.Audit

/-- The errors that `verify_chain` makes itself. -/
inductive AuditError where
  | chainViolation (seq : Int64)
  | hashMismatch (seq : Int64)
  | unknownAction

/-- A row of `audit_log`. -/
structure Row where
  communityId : Uuid
  seq : Int64
  hash : List UInt8
  prevHash : Option (List UInt8)
  action : String
  actorPubkey : Option (List UInt8)
  objectId : Option String
  detail : Detail
  createdAt : DateTime

def AuditEntry.toRow (e : AuditEntry) : Row :=
  ⟨e.communityId, e.seq, e.hash, e.prevHash, e.action.asStr, e.actorPubkey, e.objectId, e.detail,
    e.createdAt⟩

def rowToAuditEntry (row : Row) : Except AuditError AuditEntry :=
  match AuditAction.fromStr row.action with
  | none => .error .unknownAction
  | some action => .ok ⟨row.communityId, row.seq, row.hash, row.prevHash, action, row.actorPubkey,
      row.objectId, row.detail, row.createdAt⟩

theorem rowToAuditEntry_toRow (e : AuditEntry) : rowToAuditEntry e.toRow = .ok e := by
  simp only [rowToAuditEntry, AuditEntry.toRow, AuditAction.fromStr_asStr]

def rowsOf (rows : List Row) (c : Uuid) : List Row := rows.filter (·.communityId = c)

/-- The row with the greatest number. There are several ways to the order of the integers, so it is
named. -/
def maxSeq (rows : List Row) : Option Row :=
  @List.argmax Row Int Int.instLinearOrder.toPreorder Int.decLt (fun row => row.seq.toInt) rows

/-- `SELECT seq, hash … ORDER BY seq DESC LIMIT 1`. -/
def headOf (rows : List Row) (c : Uuid) : Option (Int64 × List UInt8) :=
  (maxSeq (rowsOf rows c)).map fun row => (row.seq, row.hash)

def nextEntry (sha256 : List UInt8 → List UInt8) (entry : NewAuditEntry)
    (head : Option (Int64 × List UInt8)) (now : DateTime) : Option AuditEntry :=
  let prevSeq := (head.map Prod.fst).getD 0
  let auditEntry : AuditEntry :=
    ⟨entry.communityId, prevSeq + 1, [], head.map Prod.snd, entry.action, entry.actorPubkey,
      entry.objectId, entry.detail, toStoragePrecision now⟩
  if prevSeq = Int64.maxValue then none
  else some { auditEntry with hash := computeHash sha256 auditEntry }

/-! ## Verification -/

def verifyRows (sha256 : List UInt8 → List UInt8) :
    Option (List UInt8) → List Row → Except AuditError Bool
  | _, [] => .ok true
  | expectedPrev, row :: rows =>
    match rowToAuditEntry row with
    | .error e => .error e
    | .ok entry =>
      if expectedPrev.any fun expected => entry.prevHash ≠ some expected then
        .error (.chainViolation entry.seq)
      else if computeHash sha256 entry ≠ entry.hash then .error (.hashMismatch entry.seq)
      else verifyRows sha256 (some entry.hash) rows

/-- `seq BETWEEN $2 AND $3`. -/
def between (fromSeq toSeq : Int64) (row : Row) : Bool :=
  fromSeq.toInt ≤ row.seq.toInt ∧ row.seq.toInt ≤ toSeq.toInt

def verifyChain (sha256 : List UInt8 → List UInt8) (rows : List Row) (community : CommunityId)
    (fromSeq toSeq : Int64) : Except AuditError Bool :=
  let rows := ((rowsOf rows community).filter (between fromSeq toSeq)).insertionSort
    fun row row' => row.seq.toInt ≤ row'.seq.toInt
  if rows.isEmpty then .ok false else verifyRows sha256 none rows

/-! ## Calls of `log` -/

inductive Stage where
  | waiting
  | locked
  | headRead (head : Option (Int64 × List UInt8))
  | inserted (row : Row)
  | committed
  | failed
  | done

def Stage.holding : Stage → Bool
  | waiting | done => false
  | locked | headRead _ | inserted _ | committed | failed => true

structure Call where
  entry : NewAuditEntry
  stage : Stage

abbrev CallId := CommunityId × Nat

structure World where
  rows : List Row
  calls : Table CallId Call

def World.init : World := ⟨[], ∅⟩

inductive Op where
  | call (entry : NewAuditEntry)
  | lock
  | readHead
  | insert (now : DateTime)
  | commit
  | fail
  | unlock

structure Action where
  communityId : CommunityId
  call : Nat
  op : Op

def Action.id (a : Action) : CallId := (a.communityId, a.call)

def conflicts (row row' : Row) : Bool :=
  row.communityId = row'.communityId && (row.seq = row'.seq || row.hash = row'.hash)

def Stage.pending : Stage → List Row
  | inserted row => [row]
  | _ => []

section Step

variable (sha256 : List UInt8 → List UInt8) (lockKey : CommunityId → BitVec 64)

def World.lockFree (w : World) (c : CommunityId) : Bool :=
  w.calls.toList.all fun x => !(x.2.stage.holding && lockKey x.1.1 = lockKey c)

def World.insertable (w : World) (row : Row) : Bool :=
  w.rows.all (fun row' => !conflicts row row') &&
    w.calls.toList.all fun x => x.2.stage.pending.all fun row' => !conflicts row row'

def World.setStage (w : World) (id : CallId) (call : Call) (stage : Stage) : World :=
  { w with calls := w.calls.set id { call with stage } }

def step (w : World) (a : Action) : Option World :=
  match w.calls.get? a.id, a.op with
  | none, .call entry =>
    if entry.communityId = a.communityId then
      some { w with calls := w.calls.set a.id ⟨entry, .waiting⟩ }
    else none
  | none, _ => none
  | some call, op =>
    match call.stage, op with
    | .waiting, .lock =>
      if w.lockFree lockKey a.communityId then some (w.setStage a.id call .locked) else none
    | .locked, .readHead =>
      some (w.setStage a.id call (.headRead (headOf w.rows call.entry.communityId)))
    | .headRead head, .insert now =>
      match nextEntry sha256 call.entry head now with
      | none => none
      | some e =>
        if w.insertable e.toRow then some (w.setStage a.id call (.inserted e.toRow)) else none
    | .inserted row, .commit =>
      some { w.setStage a.id call .committed with rows := w.rows ++ [row] }
    | .locked, .fail | .headRead _, .fail | .inserted _, .fail =>
      some (w.setStage a.id call .failed)
    | .committed, .unlock | .failed, .unlock => some (w.setStage a.id call .done)
    | _, _ => none

end Step

end Vingilot.Audit
