import Mathlib.Data.Prod.Lex
import Vingilot.Lib.Collections
import Vingilot.Query.Events

/-!
# Rows of the `events` table and what the replacement rules ask of them

An event is newer than another when its `created_at` is larger, or equal with a smaller id. Ids
and public keys are 32 bytes, and their order is that of the numbers. Times are in seconds.
-/

namespace Vingilot.Events

open Workflow (fromTimestamp asI64)

abbrev EventId := BitVec 256

abbrev PubKey := BitVec 256

/-- A signed event. Ingest takes no event whose time is more than 15 minutes from the server's, so
its `u64` time fits in an `i64`. -/
structure Event where
  id : EventId
  pubkey : PubKey
  createdAt : Nat
  kind : Kind
  tags : List Tag
  content : String
  createdAt_lt : createdAt < 2 ^ 63
deriving DecidableEq

theorem time100_lt : 100 < 2 ^ 63 := by decide

theorem time200_lt : 200 < 2 ^ 63 := by decide

theorem time300_lt : 300 < 2 ^ 63 := by decide

/-- The `created_at` column. -/
def Event.time (e : Event) : Int := asI64 e.createdAt

structure Signed where
  has : Event → Prop
  id_injective : ∀ e e', has e → has e' → e.id = e'.id → e = e'

/-! ## NIP-01 order -/

structure Stamp where
  createdAt : Int
  id : EventId
deriving DecidableEq

def Stamp.rank (s : Stamp) : Int ×ₗ ℕᵒᵈ := toLex (s.createdAt, OrderDual.toDual s.id.toNat)

theorem Stamp.rank_injective : Function.Injective Stamp.rank := by
  rintro ⟨t, i⟩ ⟨t', i'⟩ h
  simp only [Stamp.rank, EmbeddingLike.apply_eq_iff_eq, Prod.mk.injEq] at h
  obtain ⟨rfl, h⟩ := h
  rw [BitVec.eq_of_toNat_eq h]

instance : LinearOrder Stamp := LinearOrder.lift' Stamp.rank Stamp.rank_injective

theorem Stamp.le_iff {a b : Stamp} :
    a ≤ b ↔ a.createdAt < b.createdAt ∨ a.createdAt = b.createdAt ∧ b.id ≤ a.id :=
  Prod.Lex.toLex_le_toLex

theorem Stamp.lt_iff {a b : Stamp} :
    a < b ↔ a.createdAt < b.createdAt ∨ a.createdAt = b.createdAt ∧ b.id < a.id :=
  Prod.Lex.toLex_lt_toLex

def Event.stamp (e : Event) : Stamp := ⟨e.time, e.id⟩

def dominated (incoming accepted : Stamp) : Bool :=
  decide (incoming.createdAt < accepted.createdAt) ||
    (incoming.createdAt == accepted.createdAt && decide (accepted.id ≤ incoming.id))

@[simp]
theorem dominated_eq_true {incoming accepted : Stamp} :
    dominated incoming accepted = true ↔ incoming ≤ accepted := by
  rw [Stamp.le_iff]
  simp [dominated]

/-! ## Rows -/

structure Row where
  event : Event
  channelId : Option Uuid
  dTag : Option String
  deletedAt : Option Int

structure EventKey where
  communityId : CommunityId
  createdAt : Int
  id : EventId
deriving DecidableEq

def EventKey.stamp (k : EventKey) : Stamp := ⟨k.createdAt, k.id⟩

def Event.key (e : Event) (communityId : CommunityId) : EventKey := ⟨communityId, e.time, e.id⟩

structure Coordinate where
  communityId : CommunityId
  kind : Kind
  pubkey : PubKey
  dTag : String
deriving DecidableEq

/-- What a replacement replaces: the rows of an author's kind in a channel or with a `d` tag. -/
inductive Scope where
  | channel (id : Option Uuid)
  | dTag (value : String)

structure Address where
  communityId : CommunityId
  kind : Kind
  pubkey : PubKey
  scope : Scope

def Coordinate.address (c : Coordinate) : Address := ⟨c.communityId, c.kind, c.pubkey, .dTag c.dTag⟩

def Address.has (a : Address) (key : EventKey) (row : Row) : Bool :=
  key.communityId == a.communityId && row.event.kind == a.kind && row.event.pubkey == a.pubkey &&
    match a.scope with
    | .channel id => row.channelId == id
    | .dTag value => row.dTag == some value

/-- `extract_d_tag`. -/
def extractDTag (e : Event) : Option String :=
  if Query.isParameterizedReplaceable e.kind then
    some ((e.tags.findSome? fun t => if t.kind = "d" then t.content else none).getD "")
  else none

/-! ## The lock of an address -/

def utf8Bytes (s : List Char) : List UInt8 := s.flatMap String.utf8EncodeChar

/-- The `n` bytes of a number, the high one first. -/
def bytesOf (n value : Nat) : List UInt8 :=
  (List.range n).map fun i => UInt8.ofNat (value >>> (8 * (n - 1 - i)))

def fnv (hash : BitVec 64) (bytes : List UInt8) : BitVec 64 :=
  bytes.foldl (fun hash byte => (hash ^^^ byte.toBitVec.setWidth 64) * 0x100000001b3) hash

def eventReplacementLockKey (communityId : CommunityId) (kind : Kind) (pubkey : PubKey)
    (coordinate : Option (List UInt8)) : BitVec 64 :=
  let hash := fnv 0xcbf29ce484222325 (bytesOf 16 communityId.toNat)
  let hash := fnv hash (bytesOf 4 kind).reverse
  let hash := fnv hash (bytesOf 32 pubkey.toNat)
  fnv hash (coordinate.getD [])

def Scope.bytes : Scope → Option (List UInt8)
  | channel id => id.map fun id => bytesOf 16 id.toNat
  | dTag value => some (utf8Bytes value.toList)

def Address.lockKey (a : Address) : BitVec 64 :=
  eventReplacementLockKey a.communityId a.kind a.pubkey a.scope.bytes

/-! ## NIP-RS read state -/

def kindReadState : Kind := 30078

def readStateStart : List Char := "read-state:".toList

def isLowerHexByte (b : UInt8) : Bool := (48 ≤ b && b ≤ 57) || (97 ≤ b && b ≤ 102)

def isLowerHexChar (c : Char) : Bool := ('0' ≤ c && c ≤ '9') || ('a' ≤ c && c ≤ 'f')

/-- The `strip_prefix` test of `replace_parameterized_event`: 32 bytes of lowercase hex. -/
def hasReadStateSlot (dTag : String) : Bool :=
  readStateStart.isPrefixOf dTag.toList &&
    let slot := utf8Bytes (dTag.toList.drop readStateStart.length)
    slot.length == 32 && slot.all isLowerHexByte

/-- `d_tag ~ '^read-state:[0-9a-f]{32}$'`. -/
def matchesReadStateRegex (dTag : String) : Bool :=
  readStateStart.isPrefixOf dTag.toList &&
    let slot := dTag.toList.drop readStateStart.length
    slot.length == 32 && slot.all isLowerHexChar

/-- The tag `["t", "read-state"]`, with nothing after it. -/
def isReadStateTag (t : Tag) : Bool := t.kind == "t" && t.values == ["read-state"]

/-- `is_nip_rs` in `replace_parameterized_event`. -/
def isNipRs (e : Event) (dTag : String) : Bool :=
  e.kind == kindReadState && (e.tags.filter fun t => t.kind == "d").length == 1 &&
    (e.tags.any fun t => t.kind == "d" && t.content == some dTag) && hasReadStateSlot dTag &&
    (e.tags.filter isReadStateTag).length == 1

/-- The condition of the triggers in migration 0011. The tags are read from the `tags` column,
where an element is the array of a tag's strings. -/
def conforms (row : Row) : Bool :=
  row.event.kind == kindReadState && row.dTag.any matchesReadStateRegex &&
    (row.event.tags.countP fun t => t.kind == "d") == 1 &&
    (row.event.tags.any fun t => t.kind == "d" && row.dTag.isSome && t.content == row.dTag) &&
    row.event.tags.countP isReadStateTag == 1

theorem conforms_congr {row row' : Row} (hevent : row.event = row'.event)
    (hdTag : row.dTag = row'.dTag) : conforms row = conforms row' := by
  unfold conforms
  rw [hevent, hdTag]

/-! ### The two classifications agree -/

theorem isLowerHexByte_iff (b : UInt8) :
    isLowerHexByte b = true ↔ (48 ≤ b.toNat ∧ b.toNat ≤ 57) ∨ (97 ≤ b.toNat ∧ b.toNat ≤ 102) := by
  simp [isLowerHexByte, UInt8.le_iff_toNat_le]

theorem isLowerHexChar_iff (c : Char) :
    isLowerHexChar c = true ↔
      (48 ≤ c.toNat ∧ c.toNat ≤ 57) ∨ (97 ≤ c.toNat ∧ c.toNat ≤ 102) := by
  simp [isLowerHexChar, Char.le_def, UInt32.le_iff_toNat_le]

theorem all_utf8EncodeChar (c : Char) :
    (String.utf8EncodeChar c).all isLowerHexByte = isLowerHexChar c := by
  rw [Bool.eq_iff_iff, isLowerHexChar_iff]
  have hc : c.toNat = c.val.toNat := rfl
  rw [hc]
  unfold String.utf8EncodeChar
  simp only
  split_ifs with h1 h2 h3 <;>
    simp only [List.all_cons, List.all_nil, Bool.and_true, Bool.and_eq_true, isLowerHexByte_iff,
      UInt8.toNat_ofNat'] <;> omega

theorem all_utf8Bytes (s : List Char) :
    (utf8Bytes s).all isLowerHexByte = s.all isLowerHexChar := by
  unfold utf8Bytes
  induction s with
  | nil => rfl
  | cons c s ih => rw [List.flatMap_cons, List.all_append, all_utf8EncodeChar, ih, List.all_cons]

theorem length_utf8Bytes {s : List Char} (h : s.all isLowerHexChar = true) :
    (utf8Bytes s).length = s.length := by
  unfold utf8Bytes
  induction s with
  | nil => rfl
  | cons c s ih =>
    rw [List.all_cons, Bool.and_eq_true, isLowerHexChar_iff] at h
    obtain ⟨hc, hs⟩ := h
    have hsmall : c.val.toNat ≤ 127 := by
      have hval : c.toNat = c.val.toNat := rfl
      omega
    have hone : String.utf8EncodeChar c = [UInt8.ofNat c.val.toNat] := if_pos hsmall
    rw [List.flatMap_cons, List.length_append, ih hs, hone, List.length_cons, List.length_cons]
    simp only [List.length_nil]
    omega

theorem hasReadStateSlot_eq (dTag : String) :
    hasReadStateSlot dTag = matchesReadStateRegex dTag := by
  unfold hasReadStateSlot matchesReadStateRegex
  congr 1
  simp only [all_utf8Bytes]
  cases hall : (dTag.toList.drop readStateStart.length).all isLowerHexChar with
  | true => rw [length_utf8Bytes hall]
  | false => rw [Bool.and_false, Bool.and_false]

theorem conforms_eq_isNipRs (e : Event) (channelId : Option Uuid) (dTag : String)
    (deletedAt : Option Int) :
    conforms ⟨e, channelId, some dTag, deletedAt⟩ = isNipRs e dTag := by
  unfold conforms isNipRs
  simp only [hasReadStateSlot_eq, List.countP_eq_length_filter, Option.any_some, Option.isSome_some,
    Bool.and_true]
  cases e.kind == kindReadState <;> cases matchesReadStateRegex dTag <;> simp [Bool.and_comm]

/-! ## Mesh status -/

def kindBookmarkSet : Kind := 30003

def meshStatusStart : List Char := "buzz-mesh-member-status:".toList

def isBuzzMeshStatus (e : Event) (dTag : String) : Bool :=
  e.kind == kindBookmarkSet && meshStatusStart.isPrefixOf dTag.toList &&
    e.tags.any fun t => t.kind == "k" && t.values == ["buzz-mesh-status"]

def purgedAsMeshStatus (row : Row) : Bool :=
  row.event.kind == kindBookmarkSet &&
    (row.dTag.any fun d => meshStatusStart.isPrefixOf d.toList) &&
    Query.tagsContain row.event.tags "k" "buzz-mesh-status"

/-- What `UPDATE events SET deleted_at` leaves of a row, after the triggers. -/
def Row.softDelete (row : Row) (now : Int) : Option Row :=
  if conforms row || purgedAsMeshStatus row then none
  else some { row with deletedAt := some now }

/-! ## An example -/

def readStateTag : String := "read-state:0123456789abcdef0123456789abcdef"

def readState (id : EventId) (createdAt : Nat) (h : createdAt < 2 ^ 63) : Event :=
  ⟨id, 7, createdAt, kindReadState, [⟨"d", [readStateTag]⟩, ⟨"t", ["read-state"]⟩], "", h⟩

end Vingilot.Events
