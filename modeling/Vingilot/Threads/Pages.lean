import Vingilot.Fence.Ring
import Vingilot.Lib.Keyset
import Vingilot.Threads.Store

/-!
# Pages of a thread and of a channel (`buzz-db/src/thread.rs`)

The time of a channel cursor is in microseconds, like a wall; the tables and thread cursors have
whole seconds. Ids are compared as bytes with a cursor, and as numbers with each other.
-/

namespace Vingilot.Threads

open Events (EventId PubKey Stamp bytesOf)
open Workflow (fromTimestamp)
open Fence (secs)

inductive PageError where
  | sqlx (text : String)
  | invalidData (text : String)
deriving DecidableEq

structure StoredEvent where
  event : Events.Event
  channelId : Option Uuid
deriving DecidableEq

/-- `parse` builds the event from the columns. A row for which it fails is skipped, and one whose
kind is no `u16` fails the query. -/
def rowToStoredEvent (parse : EventRow → Option Events.Event) (row : EventRow) :
    Except PageError (Option StoredEvent) :=
  if 65535 < row.event.kind then
    .error (.invalidData ("kind out of u16 range: " ++ toString row.event.kind))
  else .ok ((parse row).map fun event => ⟨event, row.channelId⟩)

def readRows {μ α : Type} (parse : EventRow → Option Events.Event)
    (make : Stamp × EventRow × μ → StoredEvent → α) :
    List (Stamp × EventRow × μ) → Except PageError (List α)
  | [] => .ok []
  | x :: rest =>
    match rowToStoredEvent parse x.2.1 with
    | .error e => .error e
    | .ok none => readRows parse make rest
    | .ok (some stored) => (readRows parse make rest).map (make x stored :: ·)

/-! ## Replies of a thread -/

structure ThreadReply where
  eventId : EventId
  parentEventId : Option EventId
  rootEventId : Option EventId
  channelId : Uuid
  pubkey : PubKey
  tags : List Tag
  content : String
  storedEvent : StoredEvent
  depth : Int
  createdAt : Int
  broadcast : Bool
deriving DecidableEq

def ThreadReply.of (x : Stamp × EventRow × ThreadMetadata) (stored : StoredEvent) : ThreadReply :=
  { eventId := x.1.id
    parentEventId := x.2.2.parentEventId
    rootEventId := x.2.2.rootEventId
    channelId := x.2.2.channelId
    pubkey := x.2.1.event.pubkey
    tags := x.2.1.event.tags
    content := stored.event.content
    storedEvent := stored
    depth := x.2.2.depth
    createdAt := x.1.createdAt
    broadcast := x.2.2.broadcast }

structure ThreadCursor where
  createdAt : Int
  id : Option (List UInt8)

def ofBytes (bytes : List UInt8) : Nat := bytes.foldl (fun n b => 256 * n + b.toNat) 0

/-- Eight bytes of big-endian seconds, then the id. What does not decode is no cursor. -/
def decodeCursor (bytes : List UInt8) : Option ThreadCursor :=
  if bytes.length < 8 then none
  else (fromTimestamp (BitVec.ofNat 64 (ofBytes (bytes.take 8))).toInt).map fun ts =>
    ⟨ts, if 8 < bytes.length then some (bytes.drop 8) else none⟩

/-- `(event_created_at, event_id) > cursor`, or the time alone. -/
def afterThreadCursor (cursor : Option ThreadCursor) (k : Stamp) : Bool :=
  match cursor with
  | none => true
  | some ⟨ts, none⟩ => decide (ts < k.createdAt)
  | some ⟨ts, some id⟩ =>
    decide (ts < k.createdAt) || (k.createdAt == ts && decide (id < bytesOf 32 k.id.toNat))

def Db.replyAt (db : Db) (root : EventId) (depthLimit : Option (BitVec 32)) (k : Stamp) :
    Option (EventRow × ThreadMetadata) :=
  (db.metadata.get? k).bind fun m =>
    (db.events.get? k).bind fun row =>
      if m.rootEventId = some root ∧ row.deleted = false ∧
          depthLimit.all (fun d => m.depth ≤ d.toInt) = true then
        some (row, m)
      else none

def threadRank (k : Stamp) : Int ×ₗ ℕ := toLex (k.createdAt, k.id.toNat)

def Db.threadRows (db : Db) (root : EventId) (depthLimit : Option (BitVec 32))
    (cursor : Option ThreadCursor) : List (Stamp × EventRow × ThreadMetadata) :=
  Keyset.query db.metadata (db.replyAt root depthLimit) (afterThreadCursor cursor) threadRank

/-- The limit is bound as an `i32`. -/
def getThreadRepliesOn (parse : EventRow → Option Events.Event) (db : Db) (root : EventId)
    (depthLimit : Option (BitVec 32)) (limit : BitVec 32) (cursor : Option (List UInt8)) :
    Except PageError (List ThreadReply) :=
  if limit.toInt < 0 then .error (.sqlx "LIMIT must not be negative")
  else readRows parse ThreadReply.of
    ((db.threadRows root depthLimit (cursor.bind decodeCursor)).take limit.toNat)

/-! ## Windows of a channel -/

structure WindowCursor where
  ts : Int
  id : List UInt8
deriving DecidableEq

/-- Without `last_reply_at`, a reading of the clock that nothing is compared with. -/
structure ThreadSummary where
  replyCount : Int
  descendantCount : Int
  participants : List PubKey
deriving DecidableEq

structure ChannelWindowRow where
  storedEvent : StoredEvent
  threadSummary : Option ThreadSummary
deriving DecidableEq

structure ChannelWindow where
  rows : List ChannelWindowRow
  hasMore : Bool
  nextCursor : Option WindowCursor
deriving DecidableEq

def isTopLevel : Option ThreadMetadata → Bool
  | none => true
  | some m => m.depth == 0 || (m.depth == 1 && m.broadcast)

def kindAllowed (kinds : Option (List Kind)) (kind : Kind) : Bool :=
  match kinds with
  | some (k :: ks) => (k :: ks).contains kind
  | _ => true

/-- `created_at < ts OR (created_at = ts AND id > cursor)`. -/
def afterWindowCursor (cursor : Option WindowCursor) (k : Stamp) : Bool :=
  match cursor with
  | none => true
  | some ⟨ts, id⟩ =>
    decide (secs k.createdAt < ts) ||
      (secs k.createdAt == ts && decide (id < bytesOf 32 k.id.toNat))

def Db.rowAt (db : Db) (channelId : Uuid) (kinds : Option (List Kind)) (k : Stamp) :
    Option (EventRow × Option ThreadMetadata) :=
  (db.events.get? k).bind fun row =>
    if row.channelId = some channelId ∧ row.deleted = false ∧ isTopLevel (db.metadata.get? k) = true ∧
        kindAllowed kinds row.event.kind = true then
      some (row, db.metadata.get? k)
    else none

def windowRank (k : Stamp) : Stampᵒᵈ := OrderDual.toDual k

def Db.windowRows (db : Db) (channelId : Uuid) (kinds : Option (List Kind))
    (cursor : Option WindowCursor) : List (Stamp × EventRow × Option ThreadMetadata) :=
  Keyset.query db.events (db.rowAt channelId kinds) (afterWindowCursor cursor) windowRank

def ChannelWindowRow.of (x : Stamp × EventRow × Option ThreadMetadata) (stored : StoredEvent) :
    ChannelWindowRow :=
  ⟨stored, x.2.2.bind fun m =>
    if 0 < m.replyCount then some ⟨m.replyCount, m.descendantCount, []⟩ else none⟩

def Db.participants (db : Db) (root : EventId) : List PubKey :=
  let replies := db.metadata.toList.filterMap fun x => (db.replyAt root none x.1).map fun y =>
    (y.1.event.pubkey, x.1.createdAt)
  let lastSeen (author : PubKey) : Int :=
    ((replies.filter fun y => y.1 == author).map Prod.snd).max?.getD 0
  ((replies.map Prod.fst).dedup.insertionSort fun a b => lastSeen b ≤ lastSeen a).take 10

def Db.withParticipants (db : Db) (row : ChannelWindowRow) : ChannelWindowRow :=
  { row with
    threadSummary := row.threadSummary.map fun s =>
      { s with participants := db.participants row.storedEvent.event.id } }

def Stamp.cursor (k : Stamp) : WindowCursor := ⟨secs k.createdAt, bytesOf 32 k.id.toNat⟩

def getChannelWindowOn (parse : EventRow → Option Events.Event) (db : Db) (channelId : Uuid)
    (limit : BitVec 32) (cursor : Option WindowCursor) (kinds : Option (List Kind)) :
    Except PageError ChannelWindow :=
  let fetched := (db.windowRows channelId kinds cursor).take (limit.toNat + 1)
  let hasMore := decide (limit.toNat < fetched.length)
  let kept := fetched.take limit.toNat
  let nextCursor := if hasMore then kept.getLast?.map fun x => Stamp.cursor x.1 else none
  (readRows parse ChannelWindowRow.of kept).map fun rows =>
    ⟨rows.map db.withParticipants, hasMore, nextCursor⟩

/-! ## Cursors -/

theorem bytesOf_succ (n value : Nat) :
    bytesOf (n + 1) value = UInt8.ofNat (value >>> (8 * n)) :: bytesOf n value := by
  unfold bytesOf
  rw [List.range_succ_eq_map, List.map_cons, List.map_map]
  congr 1
  refine List.map_congr_left fun i _ => ?_
  have hshift : n + 1 - 1 - (i + 1) = n - 1 - i := by omega
  simp only [Function.comp, Nat.succ_eq_add_one, hshift]

theorem lt_of_digits {b x y u v : Nat} (hu : u < b) (hv : v < b) :
    b * x + u < b * y + v ↔ x < y ∨ x = y ∧ u < v := by
  constructor
  · intro h
    rcases lt_trichotomy x y with hlt | heq | hgt
    · exact .inl hlt
    · subst heq
      exact .inr ⟨rfl, by omega⟩
    · have hmul : b * (y + 1) ≤ b * x := Nat.mul_le_mul_left b hgt
      rw [Nat.mul_succ] at hmul
      omega
  · rintro (hlt | ⟨rfl, hlt⟩)
    · have hmul : b * (x + 1) ≤ b * y := Nat.mul_le_mul_left b hlt
      rw [Nat.mul_succ] at hmul
      omega
    · omega

theorem bytesOf_lt (n x y : Nat) :
    bytesOf n x < bytesOf n y ↔ x % 256 ^ n < y % 256 ^ n := by
  induction n with
  | zero => simp [bytesOf, Nat.mod_one]
  | succ n ih =>
    have hdigit : ∀ z : Nat, (UInt8.ofNat (z >>> (8 * n))).toNat = z / 256 ^ n % 256 := by
      intro z
      rw [UInt8.toNat_ofNat', Nat.shiftRight_eq_div_pow, Nat.pow_mul]
    have hpos : 0 < 256 ^ n := Nat.pow_pos (by decide)
    rw [bytesOf_succ, bytesOf_succ, List.cons_lt_cons_iff, ih, pow_succ, Nat.mod_mul, Nat.mod_mul,
      UInt8.lt_iff_toNat_lt, ← UInt8.toNat_inj, hdigit, hdigit, Nat.add_comm (x % _),
      Nat.add_comm (y % _), lt_of_digits (Nat.mod_lt _ hpos) (Nat.mod_lt _ hpos)]

theorem id_bytes_lt {i j : EventId} : bytesOf 32 i.toNat < bytesOf 32 j.toNat ↔ i < j := by
  have hsmall : ∀ i : EventId, i.toNat % 256 ^ 32 = i.toNat := fun i => Nat.mod_eq_of_lt i.isLt
  rw [bytesOf_lt, hsmall, hsmall, BitVec.lt_def]

theorem afterWindowCursor_cursor {k₀ k : Stamp} :
    afterWindowCursor (some (Stamp.cursor k₀)) k = true ↔ windowRank k₀ < windowRank k := by
  rw [windowRank, windowRank, OrderDual.toDual_lt_toDual, Stamp.lt_iff]
  unfold afterWindowCursor Stamp.cursor
  rw [Bool.or_eq_true, Bool.and_eq_true, decide_eq_true_iff, decide_eq_true_iff, beq_iff_eq,
    id_bytes_lt]
  refine or_congr ?_ (and_congr_left fun _ => ?_)
  · unfold secs
    omega
  · unfold secs
    omega

/-! ## What the queries list -/

section Queries

variable {db : Db} {root : EventId} {depthLimit : Option (BitVec 32)} {channelId : Uuid}
  {kinds : Option (List Kind)} {k : Stamp}

theorem threadRank_injective : Function.Injective threadRank := by
  rintro ⟨t, i⟩ ⟨t', i'⟩ h
  simp only [threadRank, EmbeddingLike.apply_eq_iff_eq, Prod.mk.injEq] at h
  obtain ⟨rfl, h⟩ := h
  rw [BitVec.eq_of_toNat_eq h]

theorem threadRank_le {a b : Stamp} (h : threadRank a ≤ threadRank b) : a.createdAt ≤ b.createdAt := by
  rcases Prod.Lex.toLex_le_toLex.mp h with hlt | heq
  · exact hlt.le
  · exact heq.1.le

theorem windowRank_injective : Function.Injective windowRank := OrderDual.toDual.injective

theorem replyAt_some {row : EventRow} {m : ThreadMetadata} :
    db.replyAt root depthLimit k = some (row, m) ↔
      db.metadata.get? k = some m ∧ db.events.get? k = some row ∧ m.rootEventId = some root ∧
        row.deleted = false ∧ ∀ d ∈ depthLimit, m.depth ≤ d.toInt := by
  unfold Db.replyAt
  constructor
  · intro h
    obtain ⟨m', hm, h⟩ := Option.bind_eq_some_iff.mp h
    obtain ⟨row', hrow, h⟩ := Option.bind_eq_some_iff.mp h
    split_ifs at h with hcond
    cases h
    simp only [Option.all_eq_true, decide_eq_true_eq] at hcond
    exact ⟨hm, hrow, hcond⟩
  · rintro ⟨hm, hrow, hcond⟩
    rw [hm, hrow, Option.bind_some, Option.bind_some, if_pos]
    simp only [Option.all_eq_true, decide_eq_true_eq]
    exact hcond

theorem rowAt_some {row : EventRow} {m : Option ThreadMetadata} :
    db.rowAt channelId kinds k = some (row, m) ↔
      db.events.get? k = some row ∧ db.metadata.get? k = m ∧ row.channelId = some channelId ∧
        row.deleted = false ∧ isTopLevel m = true ∧ kindAllowed kinds row.event.kind = true := by
  unfold Db.rowAt
  constructor
  · intro h
    obtain ⟨row', hrow, h⟩ := Option.bind_eq_some_iff.mp h
    split_ifs at h with hcond
    cases h
    exact ⟨hrow, rfl, hcond⟩
  · rintro ⟨hrow, rfl, hcond⟩
    rw [hrow, Option.bind_some, if_pos hcond]

theorem mem_threadRows {cursor : Option ThreadCursor} {x : Stamp × EventRow × ThreadMetadata} :
    x ∈ db.threadRows root depthLimit cursor ↔
      db.replyAt root depthLimit x.1 = some x.2 ∧ afterThreadCursor cursor x.1 = true := by
  refine Keyset.mem_query ?_
  rintro k ⟨row, m⟩ hrow
  rw [(replyAt_some.mp hrow).1]
  rfl

theorem mem_windowRows {cursor : Option WindowCursor}
    {x : Stamp × EventRow × Option ThreadMetadata} :
    x ∈ db.windowRows channelId kinds cursor ↔
      db.rowAt channelId kinds x.1 = some x.2 ∧ afterWindowCursor cursor x.1 = true := by
  refine Keyset.mem_query ?_
  rintro k ⟨row, m⟩ hrow
  rw [(rowAt_some.mp hrow).1]
  rfl

end Queries

/-! ## What the loop reads -/

section Read

variable {μ α : Type} {parse : EventRow → Option Events.Event}
  {make : Stamp × EventRow × μ → StoredEvent → α} {xs : List (Stamp × EventRow × μ)}

theorem except_map_ok {ε β γ : Type} {f : β → γ} {x : Except ε β} {z : γ} (h : x.map f = .ok z) :
    ∃ y, x = .ok y ∧ f y = z := by
  cases x with
  | error e => cases h
  | ok y =>
    cases h
    exact ⟨y, rfl, rfl⟩

def readable (parse : EventRow → Option Events.Event) (row : EventRow) : Option StoredEvent :=
  (parse row).map fun event => ⟨event, row.channelId⟩

theorem rowToStoredEvent_eq (row : EventRow) :
    rowToStoredEvent parse row =
      if 65535 < row.event.kind then
        .error (.invalidData ("kind out of u16 range: " ++ toString row.event.kind))
      else .ok (readable parse row) := rfl

theorem readRows_eq_ok {ys : List α} :
    readRows parse make xs = .ok ys ↔
      (∀ x ∈ xs, x.2.1.event.kind ≤ 65535) ∧
        ys = xs.filterMap fun x => (readable parse x.2.1).map (make x) := by
  induction xs generalizing ys with
  | nil => simp [readRows, eq_comm]
  | cons x rest ih =>
    rw [readRows, rowToStoredEvent_eq, List.forall_mem_cons, List.filterMap_cons]
    by_cases hkind : 65535 < x.2.1.event.kind
    · simp [hkind]
    · rw [if_neg hkind]
      rw [not_lt] at hkind
      cases readable parse x.2.1 with
      | none => simp [hkind, ih]
      | some stored =>
        simp only [Option.map_some, hkind, true_and]
        constructor
        · intro h
          obtain ⟨zs, hzs, rfl⟩ := except_map_ok h
          obtain ⟨hgood, rfl⟩ := ih.mp hzs
          exact ⟨hgood, rfl⟩
        · rintro ⟨hgood, rfl⟩
          rw [ih.mpr ⟨hgood, rfl⟩]
          rfl

end Read

end Vingilot.Threads
