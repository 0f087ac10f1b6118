import Mathlib.Data.List.Sort
import Mathlib.Data.String.Basic
import Vingilot.Core
import Vingilot.Lib.Codes
import Vingilot.Lib.Json

/-!
# Audit entries and what is hashed of them (`buzz-audit/src/entry.rs`, `action.rs`, `hash.rs`)
-/

namespace Vingilot.Audit

open Codes

inductive AuditAction where
  | eventCreated
  | eventDeleted
  | channelCreated
  | channelUpdated
  | channelDeleted
  | memberAdded
  | memberRemoved
  | authSuccess
  | authFailure
  | rateLimitExceeded
  | mediaUploaded
deriving DecidableEq

namespace AuditAction

def asStr : AuditAction → String
  | eventCreated => "event_created"
  | eventDeleted => "event_deleted"
  | channelCreated => "channel_created"
  | channelUpdated => "channel_updated"
  | channelDeleted => "channel_deleted"
  | memberAdded => "member_added"
  | memberRemoved => "member_removed"
  | authSuccess => "auth_success"
  | authFailure => "auth_failure"
  | rateLimitExceeded => "rate_limit_exceeded"
  | mediaUploaded => "media_uploaded"

def all : List AuditAction :=
  [eventCreated, eventDeleted, channelCreated, channelUpdated, channelDeleted, memberAdded,
    memberRemoved, authSuccess, authFailure, rateLimitExceeded, mediaUploaded]

def fromStr (s : String) : Option AuditAction := all.find? fun a => a.asStr == s

theorem fromStr_asStr (a : AuditAction) : fromStr a.asStr = some a := by
  cases a <;> decide

end AuditAction

/-! ## Times -/

def isLeap (year : Int) : Bool := year % 4 = 0 && (year % 100 ≠ 0 || year % 400 = 0)

def daysIn (year : Int) (month : Nat) : Nat :=
  if month = 2 then if isLeap year then 29 else 28
  else if month = 4 ∨ month = 6 ∨ month = 9 ∨ month = 11 then 30
  else 31

/-- `chrono::DateTime<Utc>`. A leap second is the second 59 with a second or more of nanoseconds. -/
structure DateTime where
  year : Int
  month : Nat
  day : Nat
  hour : Nat
  minute : Nat
  second : Nat
  nanosecond : Nat
  month_range : 1 ≤ month ∧ month ≤ 12
  day_range : 1 ≤ day ∧ day ≤ daysIn year month
  hour_lt : hour < 24
  minute_lt : minute < 60
  second_lt : second < 60
  nanosecond_lt : nanosecond < 2000000000
  leap : 1000000000 ≤ nanosecond → second = 59

namespace DateTime

/-- `trunc_subsecs`. -/
def truncSubsecs (t : DateTime) (digits : Nat) : DateTime :=
  { t with
    nanosecond := t.nanosecond - t.nanosecond % 10 ^ (9 - digits)
    nanosecond_lt := Nat.lt_of_le_of_lt (Nat.sub_le _ _) t.nanosecond_lt
    leap := fun h => t.leap (Nat.le_trans h (Nat.sub_le _ _)) }

def pad (width n : Nat) : List Char := (Nat.toDigits 10 n).leftpad width '0'

def sign (year : Int) : Char := if year < 0 then '-' else '+'

def yearText (year : Int) : List Char :=
  if 0 ≤ year ∧ year ≤ 9999 then pad 2 (year.toNat / 100) ++ pad 2 (year.toNat % 100)
  else sign year :: pad 4 year.natAbs

def fraction (nano : Nat) : List Char :=
  if nano = 0 then []
  else if nano % 1000000 = 0 then '.' :: pad 3 (nano / 1000000)
  else if nano % 1000 = 0 then '.' :: pad 6 (nano / 1000)
  else '.' :: pad 9 nano

def toRfc3339 (t : DateTime) : List Char :=
  let (second, nano) :=
    if 1000000000 ≤ t.nanosecond then (t.second + 1, t.nanosecond - 1000000000)
    else (t.second, t.nanosecond)
  yearText t.year ++ '-' :: pad 2 t.month ++ '-' :: pad 2 t.day ++ 'T' :: pad 2 t.hour ++
    ':' :: pad 2 t.minute ++ ':' :: pad 2 second ++ fraction nano ++ "+00:00".toList

end DateTime

def toStoragePrecision (createdAt : DateTime) : DateTime := createdAt.truncSubsecs 6

def demoTime : DateTime where
  year := 2026
  month := 1
  day := 1
  hour := 0
  minute := 0
  second := 0
  nanosecond := 123456789
  month_range := by decide
  day_range := by decide
  hour_lt := by decide
  minute_lt := by decide
  second_lt := by decide
  nanosecond_lt := by decide
  leap := by decide

example : String.ofList (toStoragePrecision demoTime).toRfc3339 =
    "2026-01-01T00:00:00.123456+00:00" := by decide +kernel

/-! ## Details -/

/-- The keys of each object ascend, as in a `BTreeMap`. -/
inductive Ascending : Json.Value → Prop where
  | null : Ascending .null
  | bool (b : Bool) : Ascending (.bool b)
  | num (text : List Char) : Ascending (.num text)
  | str (s : String) : Ascending (.str s)
  | arr (items : List Json.Value) (hitems : ∀ v ∈ items, Ascending v) : Ascending (.arr items)
  | obj (members : List (String × Json.Value)) (hmembers : ∀ m ∈ members, Ascending m.2)
      (hkeys : members.Pairwise fun m m' => m.1 < m'.1) : Ascending (.obj members)

/-- `serde_json::Value`. A number is kept as the text it is written as. -/
structure Detail where
  value : Json.Value
  valid : Json.Valid value
  ascending : Ascending value

mutual

def sortKeys : Json.Value → Json.Value
  | .obj members => .obj ((sortMembers members).insertionSort fun m m' => m.1 ≤ m'.1)
  | .arr items => .arr (sortItems items)
  | .null => .null
  | .bool b => .bool b
  | .num text => .num text
  | .str s => .str s

def sortItems : List Json.Value → List Json.Value
  | [] => []
  | v :: vs => sortKeys v :: sortItems vs

def sortMembers : List (String × Json.Value) → List (String × Json.Value)
  | [] => []
  | (key, v) :: ms => (key, sortKeys v) :: sortMembers ms

end

def canonicalJson (value : Json.Value) : List Char := Json.render (sortKeys value)

/-! ## Entries -/

structure AuditEntry where
  communityId : Uuid
  seq : Int64
  hash : List UInt8
  prevHash : Option (List UInt8)
  action : AuditAction
  actorPubkey : Option (List UInt8)
  objectId : Option String
  detail : Detail
  createdAt : DateTime

structure NewAuditEntry where
  communityId : CommunityId
  action : AuditAction
  actorPubkey : Option (List UInt8)
  objectId : Option String
  detail : Detail

def genesisHash : List UInt8 := List.replicate 32 0

def tagged : Option (List UInt8) → List UInt8
  | some bytes => 1 :: bytes
  | none => [0]

/-- What `compute_hash` feeds to the digest. -/
def hashed (entry : AuditEntry) : List UInt8 :=
  beBytes 16 entry.communityId.toNat ++
  beBytes 8 entry.seq.toBitVec.toNat ++
  utf8 (toStoragePrecision entry.createdAt).toRfc3339 ++
  utf8 entry.action.asStr.toList ++
  tagged entry.actorPubkey ++
  tagged (entry.objectId.map fun id => utf8 id.toList) ++
  utf8 (canonicalJson entry.detail.value) ++
  entry.prevHash.getD genesisHash

/-- `compute_hash`, for the SHA-256 function `sha256`. -/
def computeHash (sha256 : List UInt8 → List UInt8) (entry : AuditEntry) : List UInt8 :=
  sha256 (hashed entry)

end Vingilot.Audit
