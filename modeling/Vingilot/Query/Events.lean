import Mathlib.Data.List.Sort
import Mathlib.Data.String.Basic
import Vingilot.Core
import Vingilot.Workflow.Schedule

/-! # The events table and its queries (`buzz-db/src/event.rs`)

Ids and public keys are `BYTEA` columns. The model keeps their lowercase hex text, which
has the same equality and the same order.
-/

namespace Vingilot.Query

open Workflow (fromTimestamp asI64 nanos)

/-! ## Rows -/

def isParameterizedReplaceable (kind : Kind) : Bool := 30000 ≤ kind && kind ≤ 39999

/-- The first `d` value of a NIP-33 event, `""` when it has none. Other kinds have no column
value. -/
def extractDTag (event : Event) : Option String :=
  if isParameterizedReplaceable event.kind then
    some ((event.tags.findSome? fun t => if t.kind = "d" then t.content else none).getD "")
  else none

def asciiLower (s : String) : String := String.ofList (s.toList.map Char.toLower)

/-- A row of `events`. An event id is 32 bytes. Ingest takes no event whose time is far from
the server's, and `insert_event` none that `DateTime::from_timestamp` refuses. -/
structure Row where
  communityId : CommunityId
  event : Event
  channelId : Option Uuid
  deletedAt : Option Int
  /-- The `pubkey_hex` values of the row's `event_mentions`. Not every insert of an event is
  followed by one of its mentions. -/
  mentions : List String
  id_length : event.id.length = 64
  createdAt_le : event.createdAt ≤ 8210266876799
deriving DecidableEq

def Row.stored (row : Row) : StoredEvent := ⟨row.event, row.channelId⟩

def Row.createdAt (row : Row) : Int := nanos row.event.createdAt

def Row.dTag (row : Row) : Option String := extractDTag row.event

def pKeys (event : Event) : List String :=
  event.tags.filterMap fun t => if t.kind = "p" then t.content.map asciiLower else none

/-- `tags @> [[key, value]]`: some tag has both among its elements, anywhere. -/
def tagsContain (tags : List Tag) (key value : String) : Bool :=
  tags.any fun t => (t.kind :: t.values).contains key && (t.kind :: t.values).contains value

/-! ## Queries -/

def defaultMaxPageLimit : Int := 1000

def sharedGatedKinds : List Kind := [30175, 30178]

structure EventQuery where
  communityId : CommunityId
  channelId : Option Uuid := none
  kinds : Option (List Kind) := none
  pubkey : Option String := none
  since : Option Int := none
  until_ : Option Int := none
  limit : Option Int := none
  offset : Option Nat := none
  pTagHex : Option String := none
  dTag : Option String := none
  dTags : Option (List String) := none
  beforeId : Option String := none
  globalOnly : Bool := false
  authors : Option (List String) := none
  ids : Option (List String) := none
  eTags : Option (List String) := none
  channelIds : Option (List Uuid) := none
  maxLimit : Option Int := none
  sharedGatedReader : Option String := none

def EventQuery.forCommunity (communityId : CommunityId) : EventQuery := { communityId }

def EventQuery.matchesNothing (q : EventQuery) : Bool :=
  q.kinds == some [] || q.authors == some [] || q.ids == some [] || q.eTags == some []

def channelClause (q : EventQuery) (row : Row) : Bool :=
  match q.channelId with
  | some ch => row.channelId == some ch
  | none => !q.globalOnly || row.channelId.isNone

def channelIdsClause (q : EventQuery) (row : Row) : Bool :=
  match q.channelIds with
  | some chIds =>
    match row.channelId with
    | some ch => chIds.contains ch
    | none => true
  | none => true

def inClause {α : Type} [BEq α] (wanted : Option (List α)) (value : α) : Bool :=
  match wanted with
  | some values => values.isEmpty || values.contains value
  | none => true

def pubkeyClause (q : EventQuery) (row : Row) : Bool :=
  match q.pubkey with
  | some pk => row.event.pubkey == pk
  | none => true

def eTagsClause (q : EventQuery) (row : Row) : Bool :=
  match q.eTags with
  | some values => values.isEmpty || values.any fun v => tagsContain row.event.tags "e" v
  | none => true

def sinceClause (q : EventQuery) (row : Row) : Bool :=
  match q.since with
  | some s => decide (s ≤ row.createdAt)
  | none => true

def untilClause (q : EventQuery) (row : Row) : Bool :=
  match q.until_ with
  | some u => decide (row.createdAt ≤ u)
  | none => true

def cursorClause (q : EventQuery) (row : Row) : Bool :=
  match q.until_, q.beforeId with
  | some u, some bid =>
    decide (row.createdAt < u) || (decide (row.createdAt = u) && decide (bid < row.event.id))
  | _, _ => untilClause q row

/-- `d_tag = $n`, or `d_tag IN (..)`. A `NULL` column satisfies neither. -/
def dTagClause (q : EventQuery) (row : Row) : Bool :=
  match q.dTag, q.dTags with
  | some d, _ => row.dTag == some d
  | none, some ds => ds.isEmpty || ds.any fun d => row.dTag == some d
  | none, none => true

def mentionsClause (q : EventQuery) (row : Row) : Bool :=
  match q.pTagHex with
  | some p => row.mentions.contains (asciiLower p)
  | none => true

def sharedGateClause (q : EventQuery) (row : Row) : Bool :=
  match q.sharedGatedReader with
  | some reader =>
    !sharedGatedKinds.contains row.event.kind || row.event.pubkey == reader ||
      tagsContain row.event.tags "shared" "true"
  | none => true

def commonWhere (q : EventQuery) (row : Row) : Bool :=
  row.communityId == q.communityId && row.deletedAt.isNone && mentionsClause q row &&
    channelClause q row && channelIdsClause q row && inClause q.kinds row.event.kind &&
    pubkeyClause q row && inClause q.authors row.event.pubkey && inClause q.ids row.event.id &&
    eTagsClause q row && sinceClause q row && dTagClause q row

def queryWhere (q : EventQuery) (row : Row) : Bool :=
  commonWhere q row && cursorClause q row && sharedGateClause q row

def countWhere (q : EventQuery) (row : Row) : Bool := commonWhere q row && untilClause q row

def rowLe (a b : Row) : Prop :=
  b.createdAt < a.createdAt ∨ (a.createdAt = b.createdAt ∧ a.event.id ≤ b.event.id)

instance : DecidableRel rowLe := fun _ _ => inferInstanceAs (Decidable (_ ∨ _))

/-- A bound of a query, when it is one that `TIMESTAMPTZ` can hold. The earliest such instant
is in the year 4714 BC. -/
def validBound (bound : Option Int) : Bool :=
  match bound with
  | some t => decide (nanos (-210866803200) ≤ t)
  | none => true

def EventQuery.limitVal (q : EventQuery) : Int :=
  min (q.limit.getD 100) (q.maxLimit.getD defaultMaxPageLimit)

inductive DbError where
  | invalidData (message : String)
  | sql (message : String)
deriving DecidableEq

def EventQuery.sqlError (q : EventQuery) : Option DbError :=
  if !(validBound q.since && validBound q.until_) then some (.sql "timestamp out of range")
  else none

def queryEvents (table : List Row) (q : EventQuery) : Except DbError (List Row) :=
  if q.beforeId.isSome && q.until_.isNone then
    .error (.invalidData "before_id requires until to be set")
  else if q.globalOnly && q.channelId.isSome then
    .error (.invalidData "global_only and channel_id are mutually exclusive")
  else if q.matchesNothing then .ok []
  else
    match q.sqlError with
    | some e => .error e
    | none =>
      if q.limitVal < 0 then .error (.sql "LIMIT must not be negative")
      else
        .ok ((((table.filter (queryWhere q)).insertionSort rowLe).drop (q.offset.getD 0)).take
          q.limitVal.toNat)

def countEvents (table : List Row) (q : EventQuery) : Except DbError Nat :=
  if q.matchesNothing then .ok 0
  else
    match q.sqlError with
    | some e => .error e
    | none => .ok (table.countP (countWhere q))

end Vingilot.Query
