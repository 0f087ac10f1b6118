import Vingilot.Channels.Store
import Vingilot.Events.Heads

/-!
# Group discovery events (`buzz-relay/src/handlers/side_effects.rs`)

After a change of a channel's members its handler calls `emit_group_discovery_events`. The call
reads the members once. Then it chooses, for one kind after the other, a time above that of the
stored event, and replaces it. Only a replacement is a transaction, and the replacements of an
address run one after the other. Between the read and a replacement other calls do the same, so a
call that has read before the last change can replace the event of one that has read after it.
-/

namespace Vingilot.Channels.Discovery

open Machine Transactions
open Events (Address EventId EventKey LiveAt PubKey Row Stamp)

def kindNip29GroupMetadata : Kind := 39000

def kindNip29GroupAdmins : Kind := 39001

def kindNip29GroupMembers : Kind := 39002

def discoveryKinds : List Kind :=
  [kindNip29GroupMetadata, kindNip29GroupAdmins, kindNip29GroupMembers]

/-! ## The member list -/

abbrev MemberRecord := Bytes × Member

/-- `hex::encode`. -/
def hexEncode (bytes : Bytes) : String :=
  String.ofList (bytes.flatMap fun b => [hexDigit (b.toNat / 16), hexDigit (b.toNat % 16)])

def roleText : MemberRole → String
  | .owner => "owner"
  | .admin => "admin"
  | .member => "member"
  | .guest => "guest"
  | .bot => "bot"

def getChannel (db : Db) (ch : ChannelKey) : Option Channel :=
  (db.channels.get? ch).filter fun row => row.deletedAt.isNone

def activeRows (db : Db) (ch : ChannelKey) : List MemberRecord :=
  (db.members.toList.filter fun x => x.1.1 == ch && x.2.removedAt.isNone).map fun x => (x.1.2, x.2)

/-- `ORDER BY cm.joined_at ASC LIMIT 1000`. -/
def getMembers (db : Db) (ch : ChannelKey) : List MemberRecord :=
  if (getChannel db ch).isSome then
    ((activeRows db ch).insertionSort fun x y => x.2.joinedAt ≤ y.2.joinedAt).take 1000
  else []

/-! ## The events -/

/-- The relay's key. An id is the hash of its event. `metadata` are the tags of a metadata event
after the first one. -/
structure Relay where
  pubkey : PubKey
  eventId : Kind → Nat → List Tag → EventId
  metadata : Channel → List MemberRecord → List Tag

/-- The 32 bytes of the relay's key. -/
def Relay.keyBytes (r : Relay) : Bytes :=
  (List.range 32).map fun i => UInt8.ofNat (r.pubkey.toNat / 256 ^ (31 - i))

/-- The event builder drops the `p` tags that name the signer. -/
def Relay.kept (r : Relay) (tag : Tag) : Bool :=
  !(tag.kind == "p" && tag.content == some (hexEncode r.keyBytes))

def channelTag (ch : ChannelKey) : Tag := ⟨"d", [ch.2.toText]⟩

def adminTag (m : MemberRecord) : Tag := ⟨"p", [hexEncode m.1, roleText m.2.role]⟩

def memberTag (m : MemberRecord) : Tag := ⟨"p", [hexEncode m.1, "", roleText m.2.role]⟩

def adminTags (ch : ChannelKey) (members : List MemberRecord) : List Tag :=
  channelTag ch :: (members.filter fun m => m.2.role.isElevated).map adminTag

def memberTags (ch : ChannelKey) (members : List MemberRecord) : List Tag :=
  channelTag ch :: members.map memberTag

def Relay.tags (r : Relay) (kind : Kind) (ch : ChannelKey) (row : Channel)
    (members : List MemberRecord) : List Tag :=
  if kind = kindNip29GroupMetadata then channelTag ch :: r.metadata row members
  else if kind = kindNip29GroupAdmins then adminTags ch members
  else memberTags ch members

abbrev Slot := ChannelKey × Kind

def Relay.address (r : Relay) (slot : Slot) : Address :=
  ⟨slot.1.1, slot.2, r.pubkey, .channel (some slot.1.2)⟩

def newest (db : Events.Db) (slot : Slot) : Option Stamp :=
  ((db.events.toList.filter fun (key, row) =>
    key.communityId == slot.1.1 && row.event.kind == slot.2 && row.channelId == some slot.1.2 &&
      row.deletedAt.isNone).map fun x => x.1.stamp).max?

abbrev replacing := Events.store Events.Replacement.plan

/-! ## The calls -/

/-- What a call has read, and after how many changes of the channel's members. No code reads the
second. -/
structure Roster where
  members : List MemberRecord
  changes : Nat

structure Emission where
  channel : ChannelKey
  row : Option Channel
  roster : Option Roster
  pending : List Kind
  timestamp : Option (Fin (2 ^ 63))

def Emission.start (ch : ChannelKey) : Emission := ⟨ch, none, none, discoveryKinds, none⟩

def Emission.next (c : Emission) : Option Emission :=
  match c.pending with
  | _ :: kind :: rest => some { c with pending := kind :: rest, timestamp := none }
  | _ => none

structure Incoming where
  slot : Slot
  roster : Roster
  event : Events.Event

def Incoming.replacement (x : Incoming) : Events.Replacement :=
  Events.replaceAddressableEvent x.slot.1.1 x.event (some x.slot.1.2)

def Emission.incoming (r : Relay) (c : Emission) : Option Incoming :=
  match c.row, c.roster, c.pending, c.timestamp with
  | some row, some roster, kind :: _, some ts =>
    let tags := (r.tags kind c.channel row roster.members).filter r.kept
    some ⟨(c.channel, kind), roster,
      ⟨r.eventId kind ts.val tags, r.pubkey, ts.val, kind, tags, "", ts.isLt⟩⟩
  | _, _, _, _ => none

structure World where
  db : Db
  events : Events.Db
  calls : Table Nat Emission
  /-- How often the members of a channel have changed. No code reads it. -/
  changes : ChannelKey → Nat
  listed : Slot → Nat

def World.init : World := ⟨⟨∅, ∅⟩, .empty, ∅, fun _ => 0, fun _ => 0⟩

inductive Step where
  | change (id : Nat) (ch : ChannelKey) (writes : List Write)
  | getChannel (id : Nat)
  | getMembers (id : Nat)
  /-- A query that fails counts as one that finds no event. -/
  | chooseTimestamp (id : Nat) (now : Nat) (answered : Bool)
  | replace (id : Nat) (micros : Int)
  | fail (id : Nat)

def writeKey : Write → ChannelKey
  | .channel key _ => key
  | .member key _ _ => key

def step (r : Relay) (w : World) : Step → Option World
  | .change id ch writes =>
    let db := writes.foldl Db.apply w.db
    if (w.calls.get? id).isNone ∧ (∀ x ∈ writes, writeKey x = ch) ∧
        (getChannel db ch).isSome then
      some { w with
        db, calls := w.calls.set id (.start ch)
        changes := Function.update w.changes ch (w.changes ch + 1) }
    else none
  | .getChannel id =>
    (w.calls.get? id).bind fun c =>
      if c.row.isSome then none
      else
        match Discovery.getChannel w.db c.channel with
        | some row => some { w with calls := w.calls.set id { c with row := some row } }
        | none => some { w with calls := w.calls.remove id }
  | .getMembers id =>
    (w.calls.get? id).bind fun c =>
      if c.row.isSome ∧ c.roster.isNone then
        some { w with
          calls := w.calls.set id { c with
            roster := some ⟨Discovery.getMembers w.db c.channel, w.changes c.channel⟩ } }
      else none
  | .chooseTimestamp id now answered =>
    (w.calls.get? id).bind fun c =>
      match c.roster, c.pending, c.timestamp with
      | some _, kind :: _, none =>
        let existing := if answered then newest w.events (c.channel, kind) else none
        let ts := max now (existing.elim now fun e => e.createdAt.toNat + 1)
        if h : ts < 2 ^ 63 then
          some { w with calls := w.calls.set id { c with timestamp := some ⟨ts, h⟩ } }
        else none
      | _, _, _ => none
  | .replace id micros =>
    (w.calls.get? id).bind fun c =>
      (c.incoming r).map fun x =>
        match replacing.outcome w.events x.replacement micros with
        | .ok (_, writes) =>
          { w with
            events := view replacing.system w.events writes
            calls := w.calls.alter id fun _ => c.next
            listed := Function.update w.listed x.slot x.roster.changes }
        | .error .notInserted => { w with calls := w.calls.alter id fun _ => c.next }
        | .error _ => { w with calls := w.calls.remove id }
  | .fail id => (w.calls.get? id).map fun _ => { w with calls := w.calls.remove id }

/-! ## Agreement -/

def Shows (r : Relay) (w : World) (slot : Slot) (tags : Tag → Prop) : Prop :=
  ∃ key row, (∀ key' row', LiveAt w.events (r.address slot) key' row' ↔ key' = key ∧ row' = row) ∧
    ∀ tag, tag ∈ row.event.tags ↔ tags tag

structure Agrees (r : Relay) (w : World) (ch : ChannelKey) : Prop where
  members : Shows r w (ch, kindNip29GroupMembers) fun tag => tag = channelTag ch ∨
    ∃ pubkey role, w.db.activeRole ch pubkey = some role ∧
      tag = ⟨"p", [hexEncode pubkey, "", roleText role]⟩
  admins : Shows r w (ch, kindNip29GroupAdmins) fun tag => tag = channelTag ch ∨
    ∃ pubkey role, w.db.activeRole ch pubkey = some role ∧ role.isElevated = true ∧
      tag = ⟨"p", [hexEncode pubkey, roleText role]⟩

def Stale (r : Relay) (w : World) (x : Incoming) : Prop :=
  ∃ top ∈ w.events.head (r.address x.slot), x.event.stamp ≤ top

structure Ordered (r : Relay) (w : World) (x : Incoming) : Prop where
  time : (Workflow.fromTimestamp x.event.time).isSome = true
  newId : Stale r w x ∨ w.events.events.get? x.replacement.key = none
  older : x.roster.changes < w.listed x.slot → Stale r w x
  newer : w.listed x.slot < x.roster.changes → ¬ Stale r w x

/-- The members fit into one list, and the relay is none of them. -/
def Listable (r : Relay) (db : Db) (ch : ChannelKey) : Prop :=
  (activeRows db ch).length ≤ 1000 ∧ (db.activeRole ch r.keyBytes).isNone = true

/-- Every list that is read is whole, no statement fails, and newer lists win. -/
def InOrder (r : Relay) (w : World) : Step → Prop
  | .change .. | .getChannel _ | .chooseTimestamp .. => True
  | .getMembers id => ∀ c ∈ w.calls.get? id, Listable r w.db c.channel
  | .replace id _ => ∀ c ∈ w.calls.get? id, ∀ x ∈ c.incoming r, Ordered r w x
  | .fail _ => False

instance (r : Relay) (w : World) (x : Incoming) : Decidable (Stale r w x) :=
  decidable_of_iff ((w.events.head (r.address x.slot)).any fun top => decide (x.event.stamp ≤ top))
    (by simp [Stale, Option.any_eq_true])

instance (r : Relay) (w : World) (x : Incoming) : Decidable (Ordered r w x) :=
  decidable_of_iff ((Workflow.fromTimestamp x.event.time).isSome = true ∧
      (Stale r w x ∨ w.events.events.get? x.replacement.key = none) ∧
      (x.roster.changes < w.listed x.slot → Stale r w x) ∧
      (w.listed x.slot < x.roster.changes → ¬ Stale r w x))
    ⟨fun h => ⟨h.1, h.2.1, h.2.2.1, h.2.2.2⟩, fun h => ⟨h.time, h.newId, h.older, h.newer⟩⟩

instance (r : Relay) (db : Db) (ch : ChannelKey) : Decidable (Listable r db ch) :=
  inferInstanceAs (Decidable (_ ∧ _))

instance (r : Relay) (w : World) : (a : Step) → Decidable (InOrder r w a)
  | .change .. | .getChannel _ | .chooseTimestamp .. => inferInstanceAs (Decidable True)
  | .getMembers id =>
    inferInstanceAs (Decidable (∀ c ∈ w.calls.get? id, Listable r w.db c.channel))
  | .replace id _ =>
    inferInstanceAs (Decidable (∀ c ∈ w.calls.get? id, ∀ x ∈ c.incoming r, Ordered r w x))
  | .fail _ => inferInstanceAs (Decidable False)

/-! ## Reading the members -/

section Members

variable {r : Relay} {db db' : Db} {ch : ChannelKey} {members : List MemberRecord}

structure Exactly (r : Relay) (db : Db) (ch : ChannelKey) (members : List MemberRecord) : Prop where
  lists : ∀ pubkey role,
    (∃ m, (pubkey, m) ∈ members ∧ m.role = role) ↔ db.activeRole ch pubkey = some role
  relay : db.activeRole ch r.keyBytes = none

theorem Exactly.congr (h : Exactly r db ch members)
    (hrole : ∀ pubkey, db'.activeRole ch pubkey = db.activeRole ch pubkey) :
    Exactly r db' ch members where
  lists pubkey role := by
    rw [hrole]
    exact h.lists pubkey role
  relay := (hrole _).trans h.relay

theorem mem_activeRows {pubkey : Bytes} {m : Member} : (pubkey, m) ∈ activeRows db ch ↔
    db.membersOf ch pubkey = some m ∧ m.removedAt.isNone = true := by
  unfold activeRows Db.membersOf
  rw [List.mem_map]
  constructor
  · rintro ⟨⟨⟨ch', pubkey'⟩, m'⟩, hmem, heq⟩
    cases heq
    rw [List.mem_filter, Table.mem_toList, Bool.and_eq_true, beq_iff_eq] at hmem
    obtain ⟨hget, rfl, hactive⟩ := hmem
    exact ⟨hget, hactive⟩
  · rintro ⟨hget, hactive⟩
    refine ⟨((ch, pubkey), m), ?_, rfl⟩
    rw [List.mem_filter, Table.mem_toList]
    exact ⟨hget, by simpa using hactive⟩

theorem exactly_getMembers (hthere : (getChannel db ch).isSome = true) (h : Listable r db ch) :
    Exactly r db ch (getMembers db ch) := by
  refine ⟨fun pubkey role => ?_, Option.isNone_iff_eq_none.mp h.2⟩
  unfold getMembers
  rw [if_pos hthere, List.take_of_length_le (by rw [List.length_insertionSort]; exact h.1)]
  simp only [List.mem_insertionSort, mem_activeRows, and_assoc]
  unfold Db.activeRole
  simp only [Option.map_eq_some_iff, Option.filter_eq_some_iff, and_assoc]

theorem spared_by_writes {ws : List Write} {other : ChannelKey} (h : ∀ x ∈ ws, writeKey x = ch)
    (hne : other ≠ ch) :
    (∀ pubkey, (ws.foldl Db.apply db).activeRole other pubkey = db.activeRole other pubkey) ∧
      getChannel (ws.foldl Db.apply db) other = getChannel db other := by
  induction ws generalizing db with
  | nil => exact ⟨fun _ => rfl, rfl⟩
  | cons w ws ih =>
    obtain ⟨hrole, hchannel⟩ := @ih (db.apply w) fun x hx => h x (List.mem_cons_of_mem _ hx)
    have hkey := h w List.mem_cons_self
    rw [List.foldl_cons, hchannel]
    refine ⟨fun pubkey => (hrole pubkey).trans ?_, ?_⟩
    · cases w with
      | channel key row => rfl
      | member key pubkey' row =>
        unfold Db.activeRole Db.membersOf Db.apply
        rw [Table.get?_set, if_neg]
        rintro heq
        exact hne ((congrArg Prod.fst heq).trans hkey)
    · cases w with
      | channel key row =>
        unfold getChannel Db.apply
        rw [Table.get?_set, if_neg]
        rintro rfl
        exact hne hkey
      | member key pubkey' row => rfl

theorem hexDigit_inj : ∀ m < 16, ∀ n < 16, hexDigit m = hexDigit n → m = n := by decide

theorem hexEncode_inj {a b : Bytes} (h : hexEncode a = hexEncode b) : a = b := by
  replace h := String.ofList_inj.mp h
  induction a generalizing b with
  | nil =>
    cases b with
    | nil => rfl
    | cons y b => cases h
  | cons x a ih =>
    cases b with
    | nil => cases h
    | cons y b =>
      simp only [List.flatMap_cons, List.cons_append, List.nil_append, List.cons.injEq] at h
      obtain ⟨hhigh, hlow, hrest⟩ := h
      have hx := x.toNat_lt
      have hy := y.toNat_lt
      have hdiv := hexDigit_inj _ (by omega) _ (by omega) hhigh
      have hmod := hexDigit_inj _ (by omega) _ (by omega) hlow
      rw [ih hrest, UInt8.toNat_inj.mp (by omega : x.toNat = y.toNat)]

/-- No tag of another member is dropped. -/
theorem Exactly.kept (h : Exactly r db ch members) {x : MemberRecord} (hx : x ∈ members)
    (values : List String) : r.kept ⟨"p", hexEncode x.1 :: values⟩ = true := by
  have hne : hexEncode x.1 ≠ hexEncode r.keyBytes := by
    intro heq
    have hrole := (h.lists x.1 x.2.role).mp ⟨x.2, hx, rfl⟩
    rw [hexEncode_inj heq, h.relay] at hrole
    cases hrole
  simpa [Relay.kept, Tag.content] using hne

theorem mem_memberTags (h : Exactly r db ch members) {tag : Tag} :
    tag ∈ (memberTags ch members).filter r.kept ↔ tag = channelTag ch ∨
      ∃ pubkey role, db.activeRole ch pubkey = some role ∧
        tag = ⟨"p", [hexEncode pubkey, "", roleText role]⟩ := by
  rw [memberTags, List.filter_cons_of_pos rfl, List.mem_cons, List.mem_filter, List.mem_map]
  refine or_congr_right ?_
  constructor
  · rintro ⟨⟨⟨pubkey, m⟩, hmem, rfl⟩, -⟩
    exact ⟨pubkey, m.role, (h.lists pubkey m.role).mp ⟨m, hmem, rfl⟩, rfl⟩
  · rintro ⟨pubkey, role, hrole, rfl⟩
    obtain ⟨m, hmem, rfl⟩ := (h.lists pubkey role).mpr hrole
    exact ⟨⟨(pubkey, m), hmem, rfl⟩, h.kept hmem _⟩

theorem mem_adminTags (h : Exactly r db ch members) {tag : Tag} :
    tag ∈ (adminTags ch members).filter r.kept ↔ tag = channelTag ch ∨
      ∃ pubkey role, db.activeRole ch pubkey = some role ∧ role.isElevated = true ∧
        tag = ⟨"p", [hexEncode pubkey, roleText role]⟩ := by
  rw [adminTags, List.filter_cons_of_pos rfl, List.mem_cons, List.mem_filter, List.mem_map]
  refine or_congr_right ?_
  constructor
  · rintro ⟨⟨⟨pubkey, m⟩, hmem, rfl⟩, -⟩
    rw [List.mem_filter] at hmem
    exact ⟨pubkey, m.role, (h.lists pubkey m.role).mp ⟨m, hmem.1, rfl⟩, hmem.2, rfl⟩
  · rintro ⟨pubkey, role, hrole, helevated, rfl⟩
    obtain ⟨m, hmem, rfl⟩ := (h.lists pubkey role).mpr hrole
    exact ⟨⟨(pubkey, m), List.mem_filter.mpr ⟨hmem, helevated⟩, rfl⟩, h.kept hmem _⟩

end Members

/-! ## One replacement -/

variable {slot : Slot}

section Replace

variable {r : Relay} {w : World} {c : Emission} {x : Incoming} {micros : Int}

structure Made (r : Relay) (c : Emission) (x : Incoming) : Prop where
  channel : x.slot.1 = c.channel
  roster : c.roster = some x.roster
  pending : ∃ rest, c.pending = x.slot.2 :: rest
  tags : ∃ row, x.event.tags = (r.tags x.slot.2 x.slot.1 row x.roster.members).filter r.kept
  kind : x.event.kind = x.slot.2
  pubkey : x.event.pubkey = r.pubkey

theorem made_of_incoming (h : c.incoming r = some x) : Made r c x := by
  unfold Emission.incoming at h
  split at h
  · rename_i row roster kind rest ts _ hroster hpending _
    cases h
    exact ⟨rfl, hroster, ⟨rest, hpending⟩, ⟨row, rfl⟩, rfl, rfl⟩
  · cases h

theorem Made.address_eq (h : Made r c x) : x.replacement.address = r.address x.slot := by
  simp only [Incoming.replacement, Events.replaceAddressableEvent, Relay.address, h.kind, h.pubkey]

theorem Incoming.has_row (x : Incoming) :
    x.replacement.address.has x.replacement.key x.replacement.row = true := by
  simp [Address.has, Incoming.replacement, Events.Replacement.key, Events.Replacement.row,
    Events.Event.key, Events.replaceAddressableEvent]

theorem plan_eq (x : Incoming) :
    x.replacement.plan = x.replacement.reads ++ x.replacement.swap := by
  have hwatermark : x.replacement.watermark = none := rfl
  rw [Events.plan_eq, hwatermark, Option.toList_none, List.map_nil, List.append_nil]

theorem outcome_eq (htime : (Workflow.fromTimestamp x.event.time).isSome = true) :
    replacing.outcome w.events x.replacement micros =
      alone replacing.system w.events (x.replacement.swap.map (replacing.statement micros))
        (x.replacement.readVars w.events) [] := by
  have hplan : replacing.system.program x.replacement micros =
      x.replacement.reads.map (replacing.statement micros) ++
        x.replacement.swap.map (replacing.statement micros) := by
    rw [← List.map_append, ← plan_eq]
    rfl
  have hlook : (Workflow.fromTimestamp x.replacement.event.time).isSome = true := htime
  unfold Planned.outcome
  rw [hplan]
  exact Events.alone_reads hlook _

theorem stale_iff (hmade : Made r c x) : Stale r w x ↔
    ((x.replacement.readVars w.events).existing.toList ++
      (x.replacement.readVars w.events).watermark.toList).any
        (Events.dominated x.replacement.event.stamp) = true := by
  have hmark : (x.replacement.readVars w.events).watermark = none := rfl
  have hhead : (x.replacement.readVars w.events).existing = w.events.head (r.address x.slot) := by
    rw [← hmade.address_eq]
    rfl
  rw [hmark, hhead, Option.toList_none, List.append_nil, List.any_eq_true]
  simp only [Option.mem_toList, Events.dominated_eq_true]
  rfl

theorem refused_of_stale (hmade : Made r c x)
    (htime : (Workflow.fromTimestamp x.event.time).isSome = true) (hstale : Stale r w x) :
    replacing.outcome w.events x.replacement micros = .error .notInserted := by
  rw [outcome_eq htime]
  exact alone_stop (if_pos ((stale_iff hmade).mp hstale))

theorem accepted_of_new (hmade : Made r c x) (hkind : x.slot.2 ≠ Events.kindReadState)
    (htime : (Workflow.fromTimestamp x.event.time).isSome = true) (hfresh : ¬ Stale r w x)
    (hnewId : w.events.events.get? x.replacement.key = none) :
    ∃ v ws, replacing.outcome w.events x.replacement micros = .ok (v, ws) := by
  have htrigger : Events.triggerCoordinate x.replacement.key x.replacement.row = none := by
    have hread : (x.event.kind == Events.kindReadState) = false := by
      rw [hmade.kind]
      exact beq_false_of_ne hkind
    refine if_neg ?_
    simp [Events.conforms, Events.Replacement.row, Incoming.replacement,
      Events.replaceAddressableEvent, hread]
  rw [outcome_eq htime]
  obtain ⟨v, hretire⟩ := Events.alone_retire Events.Replacement.plan w.events x.replacement micros
    [replacing.statement micros (.guardWatermark x.replacement.key x.replacement.row),
      replacing.statement micros (.insertRow x.replacement.key x.replacement.row true)]
  have hguard : Events.guardWatermark x.replacement.key x.replacement.row v
      (view replacing.system w.events (x.replacement.retired w.events micros)) =
        .ok ({ v with skipped := false }, []) := by
    unfold Events.guardWatermark
    rw [htrigger]
  have hfree : ¬ ((view replacing.system w.events
      (x.replacement.retired w.events micros)).events.get? x.replacement.key).isSome = true := by
    intro hstored
    have hold := Events.stored_of_retired hstored
    rw [hnewId] at hold
    cases hold
  have hinsert : (replacing.statement micros
      (.insertRow x.replacement.key x.replacement.row true)).exec { v with skipped := false }
        (view replacing.system w.events (x.replacement.retired w.events micros ++ [])) =
      .ok ({ v with skipped := false, wasInserted := true },
        [.inserted x.replacement.key x.replacement.row]) := by
    rw [List.append_nil]
    exact if_neg (by simpa using hfree)
  have hcheck : (replacing.statement micros (.checkStale x.replacement.event.stamp)).exec
      (x.replacement.readVars w.events) (view replacing.system w.events []) =
        .ok (x.replacement.readVars w.events, []) :=
    if_neg ((stale_iff hmade).not.mp hfresh)
  exact ⟨_, _, (alone_ok hcheck).trans
    (hretire.trans ((alone_ok hguard).trans (alone_ok hinsert)))⟩

theorem slot_of_has {slot' : Slot} {key : EventKey} {row : Row}
    (h : (r.address slot).has key row = true) (h' : (r.address slot').has key row = true) :
    slot = slot' := by
  simp only [Relay.address, Address.has, Bool.and_eq_true, beq_iff_eq] at h h'
  obtain ⟨⟨⟨hcommunity, hkind⟩, -⟩, hchannel⟩ := h
  obtain ⟨⟨⟨hcommunity', hkind'⟩, -⟩, hchannel'⟩ := h'
  have hid := Option.some.inj (hchannel.symm.trans hchannel')
  exact Prod.ext (Prod.ext (hcommunity.symm.trans hcommunity') hid) (hkind.symm.trans hkind')

theorem has_of_where {a : Address} {key : EventKey} {row : Row}
    (h : (Events.Where.address a).has key row = true) : a.has key row = true := by
  simp only [Events.Where.has, Bool.and_eq_true] at h
  exact h.2

theorem live_after (hmade : Made r c x) {v : Events.Vars} {ws : List Events.Write}
    (houtcome : replacing.outcome w.events x.replacement micros = .ok (v, ws))
    (hnewId : w.events.events.get? x.replacement.key = none) (slot : Slot) (key : EventKey)
    (row : Row) : LiveAt (view replacing.system w.events ws) (r.address slot) key row ↔
      if slot = x.slot then key = x.replacement.key ∧ row = x.replacement.row
      else LiveAt w.events (r.address slot) key row := by
  obtain ⟨-, -, hswaps⟩ := Events.replaced_of_plan_ok houtcome
  split_ifs with hslot
  · rw [hslot, ← hmade.address_eq]
    exact hswaps.live x.has_row key row
  · have hother : ∀ {key row}, LiveAt w.events (r.address x.slot) key row →
        ¬ LiveAt w.events (r.address slot) key row := by
      intro key row hlive hlive'
      exact hslot (slot_of_has (has_of_where hlive'.2) (has_of_where hlive.2))
    unfold LiveAt at hother ⊢
    rw [hswaps.events]
    by_cases hkey : key = x.replacement.key
    · subst hkey
      rw [if_pos rfl, hnewId]
      refine iff_of_false ?_ (by simp)
      rintro ⟨hget, hhas⟩
      cases hget
      have hnew := x.has_row
      rw [hmade.address_eq] at hnew
      exact hslot (slot_of_has (has_of_where hhas) hnew)
    · rw [if_neg hkey]
      unfold Events.Replacement.retired
      by_cases hfound : ∃ old, (key, old) ∈ w.events.find (.address x.replacement.address)
      · obtain ⟨old, hold⟩ := hfound
        have hget := (Events.mem_find.mp hold).1
        have hunique : ∀ row', (key, row') ∈ w.events.find (.address x.replacement.address) →
            row' = old := by
          intro row' hrow'
          exact Option.some.inj ((Events.mem_find.mp hrow').1.symm.trans hget)
        rw [Events.events_retired hold hunique]
        rw [hmade.address_eq] at hold
        refine iff_of_false ?_ ?_
        · rintro ⟨hleft, hhas⟩
          exact Events.retired_not_live hleft hhas
        · rintro ⟨hlive, hhas⟩
          cases hlive.symm.trans hget
          exact hother (Events.mem_find.mp hold) ⟨hget, hhas⟩
      · rw [Events.events_not_retired]
        rintro ⟨key', old⟩ hold rfl
        exact hfound ⟨old, hold⟩

end Replace

/-! ## The invariant -/

structure Sound (r : Relay) (db : Db) (changes : ChannelKey → Nat) (c : Emission) : Prop where
  there : (getChannel db c.channel).isSome = true
  kinds : c.pending ⊆ discoveryKinds
  bounded : ∀ x ∈ c.roster, x.changes ≤ changes c.channel
  right : ∀ x ∈ c.roster, x.changes = changes c.channel → Exactly r db c.channel x.members

structure Owes (changes : ChannelKey → Nat) (slot : Slot) (c : Emission) : Prop where
  channel : c.channel = slot.1
  pending : slot.2 ∈ c.pending
  newest : ∀ x ∈ c.roster, x.changes = changes slot.1

structure Inv (r : Relay) (w : World) : Prop where
  one : ∀ {slot key row key' row'}, LiveAt w.events (r.address slot) key row →
    LiveAt w.events (r.address slot) key' row' → key' = key ∧ row' = row
  stored : ∀ {slot}, w.listed slot ≠ 0 → ∃ key row, LiveAt w.events (r.address slot) key row
  right : ∀ {slot}, w.listed slot = w.changes slot.1 → ∀ {key row},
    LiveAt w.events (r.address slot) key row → ∃ channel members,
      row.event.tags = (r.tags slot.2 slot.1 channel members).filter r.kept ∧
        Exactly r w.db slot.1 members
  bounded : ∀ slot, w.listed slot ≤ w.changes slot.1
  calls : ∀ {id c}, w.calls.get? id = some c → Sound r w.db w.changes c
  owed : ∀ slot, slot.2 ∈ discoveryKinds → w.listed slot = w.changes slot.1 ∨
    ∃ id c, w.calls.get? id = some c ∧ Owes w.changes slot c

section Inv

variable {r : Relay} {w w' : World} {id : Nat} {c c' : Emission} {x : Incoming}

theorem inv_init (r : Relay) : Inv r .init where
  one h := by cases h.1
  stored h := absurd rfl h
  right _ _ _ h := by cases h.1
  bounded _ := le_rfl
  calls h := by cases h
  owed _ _ := .inl rfl

theorem inv_change (h : Inv r w) {ch : ChannelKey} {ws : List Write} (hid : w.calls.get? id = none)
    (hkeys : ∀ x ∈ ws, writeKey x = ch)
    (hthere : (getChannel (ws.foldl Db.apply w.db) ch).isSome = true) :
    Inv r { w with
      db := ws.foldl Db.apply w.db
      calls := w.calls.set id (.start ch)
      changes := Function.update w.changes ch (w.changes ch + 1) } where
  one := h.one
  stored := h.stored
  right := by
    intro slot hlisted key row hlive
    by_cases hch : slot.1 = ch
    · have hle := h.bounded slot
      simp only [hch, Function.update_self] at hlisted hle
      omega
    · simp only [Function.update_of_ne hch] at hlisted
      obtain ⟨channel, members, htags, hexactly⟩ := h.right hlisted hlive
      exact ⟨channel, members, htags, hexactly.congr (spared_by_writes hkeys hch).1⟩
  bounded := by
    intro slot
    by_cases hch : slot.1 = ch
    · have hle := h.bounded slot
      simp only [hch, Function.update_self] at hle ⊢
      omega
    · simp only [Function.update_of_ne hch]
      exact h.bounded slot
  calls := by
    intro id₁ c₁ hget
    rw [Table.get?_set] at hget
    split_ifs at hget
    · cases hget
      exact ⟨hthere, fun _ hk => hk, by simp [Emission.start], by simp [Emission.start]⟩
    · have hold := h.calls hget
      by_cases hch : c₁.channel = ch
      · refine ⟨hch ▸ hthere, hold.kinds, ?_, ?_⟩
        · intro x hx
          have hle := hold.bounded x hx
          simp only [hch, Function.update_self] at hle ⊢
          omega
        · intro x hx hnewest
          have hle := hold.bounded x hx
          simp only [hch, Function.update_self] at hle hnewest
          omega
      · obtain ⟨hrole, hchannel⟩ := @spared_by_writes w.db ch ws c₁.channel hkeys hch
        refine ⟨hchannel ▸ hold.there, hold.kinds, ?_, ?_⟩
        · simp only [Function.update_of_ne hch]
          exact hold.bounded
        · simp only [Function.update_of_ne hch]
          exact fun x hx hnewest => (hold.right x hx hnewest).congr hrole
  owed := by
    intro slot hkind
    by_cases hch : slot.1 = ch
    · subst hch
      refine .inr ⟨id, .start slot.1, by rw [Table.get?_set, if_pos rfl], rfl, hkind, ?_⟩
      simp [Emission.start]
    · simp only [Function.update_of_ne hch]
      refine (h.owed slot hkind).imp_right ?_
      rintro ⟨id₁, c₁, hget, howes⟩
      have hne : id₁ ≠ id := by
        rintro rfl
        rw [hid] at hget
        cases hget
      refine ⟨id₁, c₁, by rw [Table.get?_set, if_neg hne]; exact hget, howes.channel,
        howes.pending, ?_⟩
      simp only [Function.update_of_ne hch]
      exact howes.newest

theorem Inv.move (h : Inv r w) (hget : w.calls.get? id = some c) (hchannel : c'.channel = c.channel)
    (hpending : c'.pending = c.pending) (hroster : ∀ x ∈ c'.roster, x ∈ c.roster ∨
      x.changes = w.changes c.channel ∧ Exactly r w.db c.channel x.members) :
    Inv r { w with calls := w.calls.set id c' } where
  one := h.one
  stored := h.stored
  right := h.right
  bounded := h.bounded
  calls := by
    intro id₁ c₁ hget₁
    rw [Table.get?_set] at hget₁
    split_ifs at hget₁
    · cases hget₁
      have hold := h.calls hget
      refine ⟨hchannel ▸ hold.there, ?_, ?_, ?_⟩
      · rw [hpending]
        exact hold.kinds
      · intro x hx
        rw [hchannel]
        rcases hroster x hx with hx | hx
        · exact hold.bounded x hx
        · exact hx.1.le
      · intro x hx
        rw [hchannel]
        rcases hroster x hx with hx | hx
        · exact hold.right x hx
        · exact fun _ => hx.2
    · exact h.calls hget₁
  owed slot hkind := by
    refine (h.owed slot hkind).imp_right ?_
    rintro ⟨id₁, c₁, hget₁, howes⟩
    by_cases hid : id₁ = id
    · subst hid
      cases hget.symm.trans hget₁
      refine ⟨id₁, c', by rw [Table.get?_set, if_pos rfl], hchannel.trans howes.channel,
        hpending ▸ howes.pending, ?_⟩
      intro x hx
      rcases hroster x hx with hx | hx
      · exact howes.newest x hx
      · rw [← howes.channel]
        exact hx.1
    · exact ⟨id₁, c₁, by rw [Table.get?_set, if_neg hid]; exact hget₁, howes⟩

theorem Sound.next {db : Db} {changes : ChannelKey → Nat} (h : Sound r db changes c)
    (hnext : c.next = some c') : Sound r db changes c' := by
  unfold Emission.next at hnext
  split at hnext
  · rename_i kind kind' rest hpending
    cases hnext
    have hkinds := h.kinds
    rw [hpending] at hkinds
    exact ⟨h.there, List.subset_of_cons_subset hkinds, h.bounded, h.right⟩
  · cases hnext

theorem Owes.next {changes : ChannelKey → Nat} (h : Owes changes slot c) (hmade : Made r c x)
    (hslot : slot ≠ x.slot) : ∃ c', c.next = some c' ∧ Owes changes slot c' := by
  obtain ⟨rest, hpending⟩ := hmade.pending
  have hkind : slot.2 ≠ x.slot.2 := fun hkind =>
    hslot (Prod.ext (h.channel.symm.trans hmade.channel.symm) hkind)
  have hmem := h.pending
  rw [hpending] at hmem
  have hrest := (List.mem_cons.mp hmem).resolve_left hkind
  unfold Emission.next
  rw [hpending]
  cases rest with
  | nil => cases hrest
  | cons kind rest => exact ⟨_, rfl, h.channel, hrest, h.newest⟩

theorem Inv.calls_next (h : Inv r w) (hget : w.calls.get? id = some c) {id₁ : Nat} {c₁ : Emission}
    (hget₁ : (w.calls.alter id fun _ => c.next).get? id₁ = some c₁) : Sound r w.db w.changes c₁ := by
  rw [Table.get?_alter] at hget₁
  split_ifs at hget₁
  · exact (h.calls hget).next hget₁
  · exact h.calls hget₁

theorem owed_next (hget : w.calls.get? id = some c) (hmade : Made r c x)
    (hother : slot ≠ x.slot ∨ ¬ Owes w.changes slot c)
    (howed : ∃ id c, w.calls.get? id = some c ∧ Owes w.changes slot c) :
    ∃ id₁ c₁, (w.calls.alter id fun _ => c.next).get? id₁ = some c₁ ∧ Owes w.changes slot c₁ := by
  obtain ⟨id₁, c₁, hget₁, howes⟩ := howed
  by_cases hid : id₁ = id
  · subst hid
    cases hget.symm.trans hget₁
    obtain ⟨c', hnext, howes'⟩ := howes.next hmade (hother.resolve_right (not_not.mpr howes))
    exact ⟨id₁, c', by rw [Table.get?_alter, if_pos rfl, hnext], howes'⟩
  · exact ⟨id₁, c₁, by rw [Table.get?_alter, if_neg hid]; exact hget₁, howes⟩

theorem inv_refused (h : Inv r w) (hget : w.calls.get? id = some c) (hmade : Made r c x)
    (hnot : x.roster.changes ≤ w.listed x.slot) :
    Inv r { w with calls := w.calls.alter id fun _ => c.next } where
  one := h.one
  stored := h.stored
  right := h.right
  bounded := h.bounded
  calls := h.calls_next hget
  owed slot hkind := by
    refine or_iff_not_imp_left.mpr fun hlisted => ?_
    refine owed_next hget hmade ?_ ((h.owed slot hkind).resolve_left hlisted)
    by_contra! hpays
    obtain ⟨rfl, howes⟩ := hpays
    have hnewest := howes.newest x.roster hmade.roster
    exact hlisted ((h.bounded x.slot).antisymm (hnewest.ge.trans hnot))

theorem inv_accepted (h : Inv r w) (hget : w.calls.get? id = some c) (hmade : Made r c x)
    {micros : Int} {v : Events.Vars} {ws : List Events.Write}
    (houtcome : replacing.outcome w.events x.replacement micros = .ok (v, ws))
    (hnewId : w.events.events.get? x.replacement.key = none)
    (hnot : w.listed x.slot ≤ x.roster.changes) :
    Inv r { w with
      events := view replacing.system w.events ws
      calls := w.calls.alter id fun _ => c.next
      listed := Function.update w.listed x.slot x.roster.changes } where
  one := by
    intro slot key row key' row' hlive hlive'
    rw [live_after hmade houtcome hnewId] at hlive hlive'
    split_ifs at hlive hlive'
    · obtain ⟨rfl, rfl⟩ := hlive
      exact hlive'
    · exact h.one hlive hlive'
  stored := by
    intro slot hlisted
    simp only [live_after hmade houtcome hnewId]
    by_cases hslot : slot = x.slot
    · exact ⟨_, _, by rw [if_pos hslot]; exact ⟨rfl, rfl⟩⟩
    · simp only [Function.update_of_ne hslot] at hlisted
      simp only [if_neg hslot]
      exact h.stored hlisted
  right := by
    intro slot hlisted key row hlive
    rw [live_after hmade houtcome hnewId] at hlive
    split_ifs at hlive with hslot
    · subst hslot
      obtain ⟨rfl, rfl⟩ := hlive
      simp only [Function.update_self, hmade.channel] at hlisted
      obtain ⟨channel, htags⟩ := hmade.tags
      refine ⟨channel, x.roster.members, htags, ?_⟩
      simp only [hmade.channel]
      exact (h.calls hget).right x.roster hmade.roster hlisted
    · simp only [Function.update_of_ne hslot] at hlisted
      exact h.right hlisted hlive
  bounded := by
    intro slot
    by_cases hslot : slot = x.slot
    · simp only [hslot, Function.update_self, hmade.channel]
      exact (h.calls hget).bounded x.roster hmade.roster
    · simp only [Function.update_of_ne hslot]
      exact h.bounded slot
  calls := h.calls_next hget
  owed slot hkind := by
    refine or_iff_not_imp_left.mpr fun hlisted => ?_
    by_cases hslot : slot = x.slot
    · subst hslot
      simp only [Function.update_self] at hlisted
      have hold : w.listed x.slot ≠ w.changes x.slot.1 := by
        intro heq
        have hle := (h.calls hget).bounded x.roster hmade.roster
        rw [← hmade.channel, ← heq] at hle
        exact hlisted ((hle.antisymm hnot).trans heq)
      refine owed_next hget hmade (.inr ?_) ((h.owed x.slot hkind).resolve_left hold)
      exact fun howes => hlisted (howes.newest x.roster hmade.roster)
    · simp only [Function.update_of_ne hslot] at hlisted
      exact owed_next hget hmade (.inl hslot) ((h.owed slot hkind).resolve_left hlisted)

theorem inv_replace (h : Inv r w) {micros : Int} (hordered : InOrder r w (.replace id micros))
    (hstep : step r w (.replace id micros) = some w') : Inv r w' := by
  obtain ⟨c, hget, hstep⟩ := Option.bind_eq_some_iff.mp hstep
  obtain ⟨x, hx, rfl⟩ := Option.map_eq_some_iff.mp hstep
  have hmade := made_of_incoming hx
  have hordered := hordered c hget x hx
  have hkind : x.slot.2 ≠ Events.kindReadState := by
    obtain ⟨rest, hpending⟩ := hmade.pending
    have hmem := (h.calls hget).kinds (hpending ▸ List.mem_cons_self)
    rintro heq
    rw [heq] at hmem
    revert hmem
    decide
  by_cases hstale : Stale r w x
  · rw [refused_of_stale hmade hordered.time hstale]
    exact inv_refused h hget hmade (not_lt.mp fun hlt => hordered.newer hlt hstale)
  · have hnewId := hordered.newId.resolve_left hstale
    obtain ⟨v, ws, houtcome⟩ := accepted_of_new hmade hkind hordered.time hstale hnewId
    rw [houtcome]
    exact inv_accepted h hget hmade houtcome hnewId
      (not_lt.mp fun hlt => hstale (hordered.older hlt))

theorem inv_step (s : World) (a : Step) (s' : World) (h : Inv r s) (hinOrder : InOrder r s a)
    (hstep : step r s a = some s') : Inv r s' := by
  cases a with
  | change id ch ws =>
    simp only [step] at hstep
    split_ifs at hstep with hcond
    cases hstep
    exact inv_change h (Option.isNone_iff_eq_none.mp hcond.1) hcond.2.1 hcond.2.2
  | getChannel id =>
    obtain ⟨c, hget, hstep⟩ := Option.bind_eq_some_iff.mp hstep
    obtain ⟨row, hrow⟩ := Option.isSome_iff_exists.mp (h.calls hget).there
    rw [hrow] at hstep
    split_ifs at hstep
    cases hstep
    exact h.move hget rfl rfl fun x hx => .inl hx
  | getMembers id =>
    obtain ⟨c, hget, hstep⟩ := Option.bind_eq_some_iff.mp hstep
    split_ifs at hstep
    cases hstep
    refine h.move hget rfl rfl fun x hx => .inr ?_
    cases hx
    exact ⟨rfl, exactly_getMembers (h.calls hget).there (hinOrder c hget)⟩
  | chooseTimestamp id now answered =>
    obtain ⟨c, hget, hstep⟩ := Option.bind_eq_some_iff.mp hstep
    split at hstep
    · simp only at hstep
      split_ifs at hstep
      all_goals
        cases hstep
        exact h.move hget rfl rfl fun x hx => .inl hx
    · cases hstep
  | replace id micros => exact inv_replace h hinOrder hstep
  | fail id => cases hinOrder

end Inv

/-! ## Agreement at the end -/

/-- However the calls interleave: when the newer lists win, and every list is read whole, the stored
events agree with the channel once all calls have finished. -/
theorem settled_snapshots_agree (r : Relay) {as : List Step} {w : World}
    (hrun : run (step r) .init as = some w) (hinOrder : Meets (step r) (InOrder r) .init as)
    (hdone : ∀ id, w.calls.get? id = none) {ch : ChannelKey} (hchanged : w.changes ch ≠ 0) :
    Agrees r w ch := by
  have hinv : Inv r w := run_invariant_of_meets (Inv r) inv_step (inv_init r) hinOrder hrun
  have hshown : ∀ kind ∈ discoveryKinds, ∃ key row channel members,
      (∀ key' row', LiveAt w.events (r.address (ch, kind)) key' row' ↔ key' = key ∧ row' = row) ∧
        row.event.tags = (r.tags kind ch channel members).filter r.kept ∧
          Exactly r w.db ch members := by
    intro kind hkind
    have hlisted : w.listed (ch, kind) = w.changes ch := by
      refine (hinv.owed (ch, kind) hkind).resolve_right ?_
      rintro ⟨id, c, hget, -⟩
      rw [hdone] at hget
      cases hget
    obtain ⟨key, row, hlive⟩ := hinv.stored (hlisted.trans_ne hchanged)
    obtain ⟨channel, members, htags, hexactly⟩ := hinv.right hlisted hlive
    refine ⟨key, row, channel, members, fun key' row' => ⟨hinv.one hlive, ?_⟩, htags, hexactly⟩
    rintro ⟨rfl, rfl⟩
    exact hlive
  constructor
  · obtain ⟨key, row, channel, members, hone, htags, hexactly⟩ :=
      hshown kindNip29GroupMembers (by decide)
    refine ⟨key, row, hone, fun tag => ?_⟩
    rw [htags]
    exact mem_memberTags hexactly
  · obtain ⟨key, row, channel, members, hone, htags, hexactly⟩ :=
      hshown kindNip29GroupAdmins (by decide)
    refine ⟨key, row, hone, fun tag => ?_⟩
    rw [htags]
    exact mem_adminTags hexactly

/-! ## A removal that comes back -/

def demoRelay : Relay where
  pubkey := 1
  eventId kind ts tags := BitVec.ofNat 256 ((kind * 2 ^ 64 + ts) * 2 ^ 16 + tags.length)
  metadata _ _ := []

def demoChannel : ChannelKey := (1, 2)

def alice : Bytes := List.replicate 32 1

def bob : Bytes := List.replicate 32 2

def demoCreation : CreateChannel := ⟨demoChannel, "general", .stream, .open_, none, alice, none⟩

def createChannel : List Write :=
  [.channel demoChannel (demoCreation.row 0),
    .member demoChannel alice ⟨.owner, 0, some alice, none, none⟩]

def addBob : List Write := [.member demoChannel bob ⟨.member, 1, some alice, none, none⟩]

def removeBob : List Write :=
  [.member demoChannel bob ⟨.member, 1, some alice, some 2, some alice⟩]

def emission (id now : Nat) : List Step :=
  [Step.getChannel id, .getMembers id] ++ storing id now
where
  storing (id now : Nat) : List Step :=
    (List.replicate 3 [Step.chooseTimestamp id now true, .replace id 0]).flatten

/-- Bob is added and removed. The call of the first change has read its members before the second
one commits, and stores its events after those of the second call. -/
def overtakenRead : List Step :=
  Step.change 0 demoChannel createChannel :: emission 0 10 ++
    [Step.change 1 demoChannel addBob, .getChannel 1, .getMembers 1] ++
    Step.change 2 demoChannel removeBob :: emission 2 11 ++ emission.storing 1 11

def bobTag : Tag := ⟨"p", [hexEncode bob, "", "member"]⟩

/-- The writes are those of the calls in `Store.lean`. -/
example :
    (store.outcome ⟨∅, ∅⟩ (.createChannel demoCreation) 0).toOption.map Prod.snd =
      some createChannel ∧
    (store.outcome (createChannel.foldl Db.apply ⟨∅, ∅⟩)
      (.addMember ⟨demoChannel, bob, .member, some alice⟩) 1).toOption.map Prod.snd = some addBob ∧
    (store.outcome ((createChannel ++ addBob).foldl Db.apply ⟨∅, ∅⟩)
      (.removeMember ⟨demoChannel, bob, alice, false⟩) 2).toOption.map Prod.snd =
        some removeBob := by
  decide +kernel

def World.settled (w : World) : Bool := w.calls.toList.isEmpty && w.changes demoChannel != 0

def World.listsBob (w : World) : Bool :=
  (w.events.find (.address (demoRelay.address (demoChannel, kindNip29GroupMembers)))).any
    fun x => x.2.event.tags.contains bobTag

def World.aliceAlone (w : World) : Bool :=
  w.db.members.toList.all fun x => x.2.removedAt.isSome || x.1 == (demoChannel, alice)

theorem finished_of_settled {w : World} (h : w.settled = true) (id : Nat) :
    w.calls.get? id = none := by
  rw [World.settled, Bool.and_eq_true, List.isEmpty_iff] at h
  rw [Option.eq_none_iff_forall_ne_some]
  intro c hget
  have hmem := (Table.mem_toList ..).mpr hget
  rw [h.1] at hmem
  cases hmem

theorem settled_snapshots_agree_in_turn : ∃ w,
    run (step demoRelay) .init (.change 0 demoChannel createChannel :: emission 0 10 ++
      .change 1 demoChannel addBob :: emission 1 10) = some w ∧ Agrees demoRelay w demoChannel := by
  generalize hsteps : Step.change 0 demoChannel createChannel :: emission 0 10 ++
    .change 1 demoChannel addBob :: emission 1 10 = as
  have hsettled : (run (step demoRelay) .init as).any World.settled = true := by
    subst hsteps
    decide +kernel
  have hinOrder : Meets (step demoRelay) (InOrder demoRelay) .init as := by
    subst hsteps
    decide +kernel
  obtain ⟨w, hrun, hw⟩ := (Option.any_eq_true _ _).mp hsettled
  have hchanged : w.changes demoChannel ≠ 0 := by
    simpa [World.settled] using (Bool.and_eq_true_iff.mp hw).2
  exact ⟨w, hrun, settled_snapshots_agree demoRelay hrun hinOrder (finished_of_settled hw) hchanged⟩

/-- All calls have finished, and Bob, who is no longer a member, is listed. -/
theorem overtaken_read_brings_bob_back : ∃ w,
    run (step demoRelay) .init overtakenRead = some w ∧ (∀ id, w.calls.get? id = none) ∧
      w.changes demoChannel ≠ 0 ∧ ¬ Agrees demoRelay w demoChannel := by
  have hrun : (run (step demoRelay) .init overtakenRead).any
      (fun w => w.settled && w.listsBob && w.aliceAlone) = true := by
    decide +kernel
  obtain ⟨w, hrun, hw⟩ := (Option.any_eq_true _ _).mp hrun
  simp only [Bool.and_eq_true] at hw
  obtain ⟨⟨hsettled, hbob⟩, halone⟩ := hw
  refine ⟨w, hrun, finished_of_settled hsettled,
    by simpa [World.settled] using (Bool.and_eq_true_iff.mp hsettled).2, ?_⟩
  rintro ⟨⟨key, row, hone, htags⟩, -⟩
  obtain ⟨⟨key', row'⟩, hlive, hlisted⟩ := List.any_eq_true.mp hbob
  obtain ⟨rfl, rfl⟩ := (hone key' row').mp (Events.mem_find.mp hlive)
  rcases (htags bobTag).mp (by simpa using hlisted) with heq | ⟨pubkey, role, hrole, heq⟩
  · revert heq
    decide
  · unfold Db.activeRole Db.membersOf at hrole
    simp only [Option.map_eq_some_iff, Option.filter_eq_some_iff] at hrole
    obtain ⟨m, ⟨hget, hactive⟩, -⟩ := hrole
    have halice := List.all_eq_true.mp halone _ ((Table.mem_toList ..).mpr hget)
    rw [Bool.or_eq_true, beq_iff_eq, Prod.mk.injEq] at halice
    rcases halice with hremoved | ⟨-, rfl⟩
    · rw [Option.isNone_iff_eq_none.mp hactive] at hremoved
      cases hremoved
    · simp only [bobTag, Tag.mk.injEq, List.cons.injEq, true_and] at heq
      have hkeys : hexEncode bob ≠ hexEncode alice := by decide +kernel
      exact hkeys heq.1

end Vingilot.Channels.Discovery
