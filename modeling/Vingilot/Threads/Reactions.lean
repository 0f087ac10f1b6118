import Vingilot.Lib.Machine
import Vingilot.Threads.Nip10

/-!
# Reactions and their source events (`buzz-db/src/reaction.rs`, `buzz-relay/src/handlers`)

A kind 7 event makes a row for its target, actor and emoji. The row is removed when the event is
deleted through kind 5, in a transaction of its own, and not when it is deleted through kind 9005.
-/

namespace Vingilot.Threads.Reactions

open Machine
open Events (EventId PubKey Stamp DbError Signed)

/-! ## Events -/

def reactionKind : Kind := 7

def pushLeaseKind : Kind := 30350

/-- An event that the relay has signed names its author in an `actor` or `p` tag. -/
def effectiveMessageAuthor (relay : PubKey) (e : Events.Event) : PubKey :=
  let tagged (kind : String) (t : Tag) := if t.kind = kind then t.content else none
  if e.pubkey = relay then
    (((e.tags.findSome? (tagged "actor")).bind decodeId).or
      (e.tags.findSome? fun t => (tagged "p" t).bind decodeId)).getD e.pubkey
  else e.pubkey

/-- The last valid `e` tag. -/
def reactionTarget (e : Events.Event) : Option EventId :=
  e.tags.reverse.findSome? fun t => if t.kind = "e" then t.content.bind decodeId else none

def reactionEmoji (e : Events.Event) : String := if e.content = "" then "+" else e.content

/-! ## Rows -/

structure ReactionKey where
  target : Stamp
  pubkey : PubKey
  emoji : String
deriving DecidableEq

structure Reaction where
  /-- `removed_at IS NOT NULL`. -/
  removed : Bool
  reactionEventId : Option EventId
deriving DecidableEq

abbrev Rows := Table ReactionKey Reaction

def taken (reactions : Rows) (key : ReactionKey) (source : Option EventId) : Bool :=
  reactions.toList.any fun x => x.1 != key && x.2.reactionEventId.isSome &&
    x.2.reactionEventId == source

/-- The upsert. `none` when the reaction is active already. -/
def addReactionTx (reactions : Rows) (key : ReactionKey) (source : Option EventId) :
    Except DbError (Option Rows) :=
  let write (row : Reaction) :=
    if taken reactions key row.reactionEventId then
      .error (.sqlx "duplicate key value violates unique constraint \"idx_reactions_source_event\"")
    else .ok (some (reactions.set key row))
  match reactions.get? key with
  | none => write ⟨false, source⟩
  | some row => if row.removed then write ⟨false, source.or row.reactionEventId⟩ else .ok none

/-- `UPDATE reactions SET removed_at .. WHERE .. AND removed_at IS NULL`, with the number of rows. -/
def removeWhere (reactions : Rows) (p : ReactionKey × Reaction → Bool) : Rows × Nat :=
  let rows := reactions.toList.filter fun x => p x && !x.2.removed
  (reactions.setAll (rows.map fun x => (x.1, { x.2 with removed := true })), rows.length)

def removeReactionBySourceEventId (reactions : Rows) (id : EventId) : Rows × Nat :=
  removeWhere reactions fun x => x.2.reactionEventId == some id

def removeReaction (reactions : Rows) (key : ReactionKey) : Rows × Nat :=
  removeWhere reactions fun x => x.1 == key

/-! ## Ingest -/

inductive Outcome where
  | targetMissing
  | duplicate
  | inserted (wasInserted : Bool)

/-- One transaction. What is not inserted is rolled back. -/
def insertReactionEventWithThreadMetadata (db : Db) (reactions : Rows) (e : Events.Event)
    (channelId : Option Uuid) (target : EventId) (actor : PubKey) (emoji : String) :
    Except DbError ((Db × Rows) × Outcome) :=
  match db.getEventById target with
  | none => .ok ((db, reactions), .targetMissing)
  | some row =>
    match addReactionTx reactions ⟨⟨row.event.time, target⟩, actor, emoji⟩ (some e.id) with
    | .error error => .error error
    | .ok none => .ok ((db, reactions), .duplicate)
    | .ok (some reactions) =>
      -- kind 7 is not scoped by `h`, so it has no thread metadata
      match insertEventWithThreadMetadata db e channelId none with
      | .error error => .error error
      | .ok (db, wasInserted) => .ok ((db, reactions), .inserted wasInserted)

def ingestReaction (relay : PubKey) (db : Db) (reactions : Rows) (e : Events.Event)
    (channelId : Option Uuid) : Except IngestError ((Db × Rows) × Outcome) :=
  match reactionTarget e with
  | none => .error (.rejected "invalid: reaction must reference a target event via e tag")
  | some target =>
    match insertReactionEventWithThreadMetadata db reactions e channelId target
      (effectiveMessageAuthor relay e) (reactionEmoji e) with
    | .error error => .error (.internal error)
    | .ok (_, .targetMissing) => .error (.rejected "invalid: reaction target event not found")
    | .ok result => .ok result

def reactionKey (relay : PubKey) (db : Db) (e : Events.Event) : Option ReactionKey := do
  let target ← reactionTarget e
  let row ← db.getEventById target
  some ⟨⟨row.event.time, target⟩, effectiveMessageAuthor relay e, reactionEmoji e⟩

/-! ## Runs -/

inductive Stage where
  | bySource
  | byTuple
deriving DecidableEq

structure Deletion where
  event : Events.Event
  stage : Stage

structure State where
  db : Db
  reactions : Rows
  pending : Table Nat Deletion
  started : Nat

def State.init (db : Db) : State := ⟨db, ∅, ∅, 0⟩

/-- The deletion of an event, its thread looked up before. `pick` is the row that is found. -/
def softDelete (db : Db) (id : EventId) (pick : Nat) : Db × Bool :=
  let row := db.getThreadMetadataByEvent id pick
  softDeleteEventAndUpdateThread db id (row.bind (·.parentEventId)) (row.bind (·.rootEventId))

inductive Action (signed : Signed) where
  | reaction (e : Events.Event) (channelId : Option Uuid) (hsigned : signed.has e)
      (hkind : e.kind = reactionKind)
  | event (e : Events.Event) (channelId : Option Uuid) (params : Option ThreadMetadataParams)
      (hsigned : signed.has e) (hkind : e.kind ≠ reactionKind)
  /-- Kind 5. -/
  | deletion (id : EventId) (pick : Nat)
  | removeBySource (n : Nat)
  | removeByTuple (n : Nat)
  /-- Kind 9005 in the channel of its `h` tag. -/
  | deleteEvent (channelId : Uuid) (id : EventId) (pick : Nat)

variable {signed : Signed}

def step (relay : PubKey) (s : State) : Action signed → Option State
  | .reaction e channelId _ _ =>
    match ingestReaction relay s.db s.reactions e channelId with
    | .ok ((db, reactions), _) => some { s with db, reactions }
    | .error _ => some s
  | .event e channelId params _ _ =>
    match insertEventWithThreadMetadata s.db e channelId params with
    | .ok (db, _) => some { s with db }
    | .error _ => some s
  | .deletion id pick => do
    let target ← s.db.getEventByIdIncludingDeleted id
    if target.event.kind = pushLeaseKind then some s
    else
      let (db, deleted) := softDelete s.db id pick
      if deleted && target.event.kind == reactionKind then
        some { s with
          db
          pending := s.pending.set s.started ⟨target.event, .bySource⟩
          started := s.started + 1 }
      else some { s with db }
  | .removeBySource n => do
    let d ← s.pending.get? n
    if d.stage = .bySource then
      let (reactions, removed) := removeReactionBySourceEventId s.reactions d.event.id
      if 0 < removed then some { s with reactions, pending := s.pending.remove n }
      else some { s with reactions, pending := s.pending.set n { d with stage := .byTuple } }
    else none
  | .removeByTuple n => do
    let d ← s.pending.get? n
    if d.stage = .byTuple then
      let reactions := match reactionKey relay s.db d.event with
        | some key => (removeReaction s.reactions key).1
        | none => s.reactions
      some { s with reactions, pending := s.pending.remove n }
    else none
  | .deleteEvent channelId id pick =>
    match s.db.getEventByIdIncludingDeleted id with
    | some target =>
      if target.channelId = some channelId then some { s with db := (softDelete s.db id pick).1 }
      else some s
    | none => some { s with db := (softDelete s.db id pick).1 }

/-! ## Live sources -/

def said (relay : PubKey) (e : Events.Event) : PubKey × Option EventId × String :=
  (effectiveMessageAuthor relay e, reactionTarget e, reactionEmoji e)

def ReactionKey.said (key : ReactionKey) : PubKey × Option EventId × String :=
  (key.pubkey, some key.target.id, key.emoji)

/-- The source of an active row is a live kind 7 event of its actor, target and emoji, and there is
one such event at most. So a deleted reaction is not counted, and a counted one can be deleted. -/
structure LiveSources (relay : PubKey) (s : State) : Prop where
  live : ∀ key row id, s.reactions.get? key = some row → row.removed = false →
    row.reactionEventId = some id →
      ∃ k ev, s.db.events.get? k = some ev ∧ k.id = id ∧ ev.deleted = false ∧
        ev.event.kind = reactionKind ∧ said relay ev.event = key.said
  one : ∀ k k' ev ev', s.db.events.get? k = some ev → s.db.events.get? k' = some ev' →
    ev.deleted = false → ev'.deleted = false → ev.event.kind = reactionKind →
      ev'.event.kind = reactionKind → said relay ev.event = said relay ev'.event → k = k'

/-- No deleted kind 7 event becomes a source again, and kind 9005 deletes no live one. -/
def keepsSources (relay : PubKey) (s : State) : Action signed → Prop
  | .reaction e _ _ _ => ∀ key ∈ reactionKey relay s.db e,
    (∀ row ∈ s.reactions.get? key, row.removed = true) →
      ∀ ev ∈ s.db.events.get? e.stamp, ev.deleted = false
  | .deleteEvent channelId id _ => ∀ ev ∈ s.db.getEventById id, ev.channelId = some channelId →
    ev.event.kind ≠ reactionKind
  | _ => True

/-! ## What every state keeps -/

structure Inv (signed : Signed) (relay : PubKey) (s : State) : Prop where
  origin : Original signed s.db
  home : ∀ key row, s.reactions.get? key = some row → ∃ e, signed.has e ∧ e.stamp = key.target
  row : ∀ k ev, s.db.events.get? k = some ev → ev.event.kind = reactionKind → ev.deleted = false →
    ∃ key, s.reactions.get? key = some ⟨false, some k.id⟩ ∧ said relay ev.event = key.said
  source : ∀ key row, s.reactions.get? key = some row → row.removed = false →
    ∃ k ev, s.db.events.get? k = some ev ∧ row.reactionEventId = some k.id ∧
      ev.event.kind = reactionKind ∧ said relay ev.event = key.said ∧
        (ev.deleted = true → ∃ n d, s.pending.get? n = some d ∧ d.event = ev.event)
  waits : ∀ n d, s.pending.get? n = some d → d.stage = .bySource ∧
    ∃ k ev key, s.db.events.get? k = some ev ∧ ev.event = d.event ∧
      ev.event.kind = reactionKind ∧ ev.deleted = true ∧
        s.reactions.get? key = some ⟨false, some k.id⟩
  once : ∀ n m d d', s.pending.get? n = some d → s.pending.get? m = some d' →
    d.event = d'.event → n = m
  next : ∀ n, s.started ≤ n → s.pending.get? n = none

variable {relay : PubKey} {s s' : State}

variable {e : Events.Event}

theorem said_key {target : EventId} (h : reactionTarget e = some target) (createdAt : Int) :
    said relay e = (ReactionKey.mk ⟨createdAt, target⟩ (effectiveMessageAuthor relay e)
      (reactionEmoji e)).said := by
  rw [said, h]
  rfl

variable {key : ReactionKey}

theorem key_of_said {key' : ReactionKey} {e' : Events.Event} (hsigned : signed.has e)
    (hsigned' : signed.has e') (hstamp : e.stamp = key.target) (hstamp' : e'.stamp = key'.target)
    (hsaid : key.said = key'.said) : key = key' := by
  obtain ⟨target, pubkey, emoji⟩ := key
  obtain ⟨target', pubkey', emoji'⟩ := key'
  simp only [ReactionKey.said, Prod.mk.injEq, Option.some.injEq] at hsaid
  obtain ⟨rfl, hid, rfl⟩ := hsaid
  simp only at hstamp hstamp'
  have hids : e.id = e'.id := by
    rw [← hstamp, ← hstamp'] at hid
    exact hid
  rw [← hstamp, ← hstamp', signed.id_injective _ _ hsigned hsigned' hids]

theorem Inv.init (signed : Signed) (relay : PubKey) : Inv signed relay (.init .empty) where
  origin k ev h := by cases h
  home key row h := by cases h
  row k ev h := by cases h
  source key row h := by cases h
  waits n d h := by cases h
  once n m d d' h := by cases h
  next n _ := rfl

/-! ## Ingest of a reaction -/

variable {id : EventId}

theorem addReactionTx_some {reactions new : Rows}
    (h : addReactionTx reactions key (some id) = .ok (some new)) :
    (∀ old, reactions.get? key = some old → old.removed = true) ∧
      new = reactions.set key ⟨false, some id⟩ := by
  unfold addReactionTx at h
  simp only at h
  cases hget : reactions.get? key with
  | none =>
    simp only [hget] at h
    split_ifs at h
    cases h
    refine ⟨?_, rfl⟩
    intro old hold
    cases hold
  | some row =>
    simp only [hget] at h
    split_ifs at h with hremoved
    · cases h
      refine ⟨?_, rfl⟩
      intro old hold
      cases hold
      exact hremoved
    · cases h

structure Reacts (relay : PubKey) (s : State) (e : Events.Event) (channelId : Option Uuid)
    (s' : State) (key : ReactionKey) : Prop where
  found : reactionKey relay s.db e = some key
  inactive : ∀ old, s.reactions.get? key = some old → old.removed = true
  inserted : ∃ wasInserted,
    insertEventWithThreadMetadata s.db e channelId none = .ok (s'.db, wasInserted)
  reactions : s'.reactions = s.reactions.set key ⟨false, some e.id⟩
  pending : s'.pending = s.pending
  started : s'.started = s.started

variable {channelId : Option Uuid}

theorem reaction_cases {hsigned : signed.has e} {hkind : e.kind = reactionKind}
    (h : step relay s (.reaction e channelId hsigned hkind) = some s') :
    s' = s ∨ ∃ key, Reacts relay s e channelId s' key := by
  simp only [step, ingestReaction] at h
  cases htarget : reactionTarget e with
  | none =>
    simp only [htarget, Option.some.injEq] at h
    exact .inl h.symm
  | some target =>
    simp only [htarget, insertReactionEventWithThreadMetadata] at h
    cases hrow : s.db.getEventById target with
    | none =>
      simp only [hrow, Option.some.injEq] at h
      exact .inl h.symm
    | some row =>
      have hkey : reactionKey relay s.db e = some
          ⟨⟨row.event.time, target⟩, effectiveMessageAuthor relay e, reactionEmoji e⟩ := by
        simp only [reactionKey, htarget, Option.bind_eq_bind, Option.bind_some, hrow]
      simp only [hrow] at h
      cases hadd : addReactionTx s.reactions
          ⟨⟨row.event.time, target⟩, effectiveMessageAuthor relay e, reactionEmoji e⟩ (some e.id) with
      | error error =>
        simp only [hadd, Option.some.injEq] at h
        exact .inl h.symm
      | ok added =>
        cases added with
        | none =>
          simp only [hadd, Option.some.injEq] at h
          exact .inl h.symm
        | some reactions =>
          obtain ⟨hinactive, rfl⟩ := addReactionTx_some hadd
          simp only [hadd] at h
          cases hinsert : insertEventWithThreadMetadata s.db e channelId none with
          | error error =>
            simp only [hinsert, Option.some.injEq] at h
            exact .inl h.symm
          | ok result =>
            obtain ⟨db, wasInserted⟩ := result
            simp only [hinsert, Option.some.injEq] at h
            rw [← h]
            exact .inr ⟨_, hkey, hinactive, ⟨wasInserted, hinsert⟩, rfl, rfl, rfl⟩

theorem key_cases {db : Db} (horigin : Original signed db) (h : reactionKey relay db e = some key) :
    said relay e = key.said ∧ ∃ target, signed.has target ∧ target.stamp = key.target := by
  simp only [reactionKey, Option.bind_eq_bind, Option.bind_eq_some_iff] at h
  obtain ⟨target, htarget, row, hrow, heq⟩ := h
  rw [Option.some.injEq] at heq
  obtain ⟨-, hsigned, hstamp⟩ := horigin.live_stamp hrow
  refine ⟨?_, row.event, hsigned, ?_⟩
  · rw [← heq]
    exact said_key htarget _
  · rw [← heq, hstamp]

theorem inv_reaction (hinv : Inv signed relay s) (hsigned : signed.has e)
    (hkind : e.kind = reactionKind)
    (hkeeps : ∀ key ∈ reactionKey relay s.db e, (∀ row ∈ s.reactions.get? key, row.removed = true) →
      ∀ ev ∈ s.db.events.get? e.stamp, ev.deleted = false) (h : Reacts relay s e channelId s' key) :
    Inv signed relay s' := by
  obtain ⟨hsaid, target, htarget, hstamp⟩ := key_cases hinv.origin h.found
  -- a live event has an active row, which is the row of its tuple
  have hfree : s.db.events.get? e.stamp = none := by
    cases hget : s.db.events.get? e.stamp with
    | none => rfl
    | some ev =>
      have hsame : ev.event = e := hinv.origin.event_eq hget hsigned rfl
      have hlive := hkeeps key h.found h.inactive ev hget
      obtain ⟨key', hrow, hsaid'⟩ := hinv.row _ ev hget (hsame ▸ hkind) hlive
      obtain ⟨target', htarget', hstamp'⟩ := hinv.home key' _ hrow
      rw [hsame, hsaid] at hsaid'
      rw [← key_of_said htarget htarget' hstamp hstamp' hsaid'] at hrow
      cases h.inactive _ hrow
  obtain ⟨wasInserted, hinsert⟩ := h.inserted
  have hdb : s'.db = withEvent s.db e.stamp ⟨e, channelId, false⟩ := insert_plain hfree hinsert
  have hevents : ∀ k, s'.db.events.get? k =
      if k = e.stamp then some ⟨e, channelId, false⟩ else s.db.events.get? k := by
    intro k
    rw [hdb, events_withEvent]
  have hold : ∀ {k ev}, s.db.events.get? k = some ev → s'.db.events.get? k = some ev := by
    intro k ev hget
    rw [hevents, if_neg, hget]
    rintro rfl
    cases hfree.symm.trans hget
  have hreactions : ∀ key', s'.reactions.get? key' =
      if key' = key then some ⟨false, some e.id⟩ else s.reactions.get? key' := by
    intro key'
    rw [h.reactions, Table.get?_set]
  have hactive : ∀ {key' row}, s.reactions.get? key' = some row → row.removed = false →
      s'.reactions.get? key' = some row := by
    intro key' row hget hremoved
    rw [hreactions, if_neg, hget]
    rintro rfl
    rw [h.inactive row hget] at hremoved
    cases hremoved
  have hev : (EventRow.mk e channelId false).event.stamp = e.stamp ∧
      signed.has (EventRow.mk e channelId false).event := ⟨rfl, hsigned⟩
  have horigin : Original signed s'.db := hinv.origin.set hev hevents
  refine ⟨horigin, ?_, ?_, ?_, ?_, ?_, ?_⟩
  · intro key' row hget
    rw [hreactions] at hget
    split_ifs at hget with hkey
    · rw [hkey]
      exact ⟨target, htarget, hstamp⟩
    · exact hinv.home key' row hget
  · intro k ev hget hreaction hlive
    rw [hevents] at hget
    split_ifs at hget with hk
    · cases hget
      rw [hk]
      refine ⟨key, ?_, hsaid⟩
      rw [hreactions, if_pos rfl]
      rfl
    · obtain ⟨key', hrow, hsaid'⟩ := hinv.row k ev hget hreaction hlive
      exact ⟨key', hactive hrow rfl, hsaid'⟩
  · intro key' row hget hremoved
    rw [hreactions] at hget
    split_ifs at hget with hkey
    · cases hget
      rw [hkey]
      refine ⟨e.stamp, ⟨e, channelId, false⟩, ?_, rfl, hkind, hsaid, fun hdead => by cases hdead⟩
      rw [hevents, if_pos rfl]
    · obtain ⟨k, ev, hev, hsource, hreaction, hsaid', hwaits⟩ := hinv.source key' row hget hremoved
      rw [h.pending]
      exact ⟨k, ev, hold hev, hsource, hreaction, hsaid', hwaits⟩
  · intro n d hd
    rw [h.pending] at hd
    obtain ⟨hstage, k, ev, key', hev, hsame, hreaction, hdead, hrow⟩ := hinv.waits n d hd
    exact ⟨hstage, k, ev, key', hold hev, hsame, hreaction, hdead, hactive hrow rfl⟩
  · rw [h.pending]
    exact hinv.once
  · rw [h.pending, h.started]
    exact hinv.next

/-! ## Other events -/

theorem inv_of_reactions {db' : Db} (hinv : Inv signed relay s) (horigin : Original signed db')
    (hsame : ∀ k ev, ev.event.kind = reactionKind →
      (db'.events.get? k = some ev ↔ s.db.events.get? k = some ev)) :
    Inv signed relay { s with db := db' } where
  origin := horigin
  home := hinv.home
  row k ev hget hreaction hlive := hinv.row k ev ((hsame k ev hreaction).mp hget) hreaction hlive
  source key row hget hremoved := by
    obtain ⟨k, ev, hev, hsource, hreaction, hrest⟩ := hinv.source key row hget hremoved
    exact ⟨k, ev, (hsame k ev hreaction).mpr hev, hsource, hreaction, hrest⟩
  waits n d hd := by
    obtain ⟨hstage, k, ev, key, hev, hevent, hreaction, hrest⟩ := hinv.waits n d hd
    exact ⟨hstage, k, ev, key, (hsame k ev hreaction).mpr hev, hevent, hreaction, hrest⟩
  once := hinv.once
  next := hinv.next

theorem inv_event {db' : Db} {params : Option ThreadMetadataParams} {inserted : Bool}
    (hinv : Inv signed relay s) (hsigned : signed.has e) (hkind : e.kind ≠ reactionKind)
    (h : insertEventWithThreadMetadata s.db e channelId params = .ok (db', inserted)) :
    Inv signed relay { s with db := db' } := by
  have hev : (EventRow.mk e channelId false).event.stamp = e.stamp ∧
      signed.has (EventRow.mk e channelId false).event := ⟨rfl, hsigned⟩
  have hinsert : s.db.events.get? e.stamp = none → (∀ k, db'.events.get? k =
      if k = e.stamp then some ⟨e, channelId, false⟩ else s.db.events.get? k) →
        Inv signed relay { s with db := db' } := by
    intro hfree hevents
    refine inv_of_reactions hinv (hinv.origin.set hev hevents) ?_
    intro k ev hreaction
    rw [hevents]
    split_ifs with hk
    · rw [hk, hfree]
      constructor
      · intro heq
        cases heq
        exact absurd hreaction hkind
      · intro heq
        cases heq
    · rfl
  rcases insert_cases h with rfl | ⟨hfree, rfl | ⟨p, -, -, rfl⟩⟩
  · exact hinv
  · exact hinsert hfree events_withEvent
  · exact hinsert hfree events_withThread

theorem events_softDelete (db : Db) (id : EventId) (pick : Nat) (k : Stamp) :
    (softDelete db id pick).1.events.get? k =
      (db.events.get? k).map fun row => if k.id = id then row.delete else row :=
  Threads.events_softDelete k

theorem Inv.softDelete (hinv : Inv signed relay s) (id : EventId) (pick : Nat) :
    Original signed (softDelete s.db id pick).1 :=
  hinv.origin.softDelete _ id _ _

theorem inv_softDelete_other (pick : Nat) (hinv : Inv signed relay s)
    (hother : ∀ k ev, s.db.events.get? k = some ev → k.id = id → ev.deleted = false →
      ev.event.kind ≠ reactionKind) :
    Inv signed relay { s with db := (softDelete s.db id pick).1 } := by
  refine inv_of_reactions hinv (hinv.softDelete id pick) ?_
  intro k ev hreaction
  rw [events_softDelete]
  have hdead : ∀ old : EventRow, s.db.events.get? k = some old → k.id = id →
      old.event.kind = reactionKind → old.delete = old := by
    intro old hget hid hold
    cases hdeleted : old.deleted with
    | false => exact absurd hold (hother k old hget hid hdeleted)
    | true => rw [EventRow.delete, ← hdeleted]
  constructor
  · intro h
    obtain ⟨old, hold, heq⟩ := Option.map_eq_some_iff.mp h
    split_ifs at heq with hid
    · have hkind : old.event.kind = reactionKind := by
        rw [← heq] at hreaction
        exact hreaction
      rw [hold, ← heq, hdead old hold hid hkind]
    · rw [hold, heq]
  · intro h
    rw [h, Option.map_some]
    split_ifs with hid
    · rw [hdead ev h hid hreaction]
    · rfl

/-! ## Kind 5 -/

theorem inv_deletion {pick : Nat} {target : EventRow} (hinv : Inv signed relay s)
    (htarget : s.db.getEventByIdIncludingDeleted id = some target)
    (hkind : target.event.kind = reactionKind) (hdeleted : (softDelete s.db id pick).2 = true) :
    Inv signed relay { s with
      db := (softDelete s.db id pick).1
      pending := s.pending.set s.started ⟨target.event, .bySource⟩
      started := s.started + 1 } := by
  have hlive : s.db.getEventById id = some target := by
    rw [softDelete, softDeleteEventAndUpdateThread, deleted_softDelete, Bool.not_eq_true',
      List.isEmpty_eq_false_iff] at hdeleted
    obtain ⟨⟨k, ev⟩, hmem⟩ := List.exists_mem_of_ne_nil _ hdeleted
    obtain ⟨hget, hid, hlive⟩ := mem_liveRows.mp hmem
    obtain ⟨k', hget', hid', -⟩ := newest_some htarget
    rw [hinv.origin.key_unique hget' hget (hid'.trans hid.symm), hget] at hget'
    cases hget'
    exact hinv.origin.getEventById_iff.mpr ⟨k, hget, hid, hlive⟩
  obtain ⟨k₀, hget₀, hid₀, hlive₀⟩ := hinv.origin.getEventById_iff.mp hlive
  obtain ⟨key₀, hrow₀, -⟩ := hinv.row k₀ target hget₀ hkind hlive₀
  have hold : ∀ n d, s.pending.get? n = some d → n ≠ s.started := by
    rintro n d hd rfl
    rw [hinv.next _ le_rfl] at hd
    cases hd
  have hafter : ∀ k ev, s.db.events.get? k = some ev →
      ∃ ev', (softDelete s.db id pick).1.events.get? k = some ev' ∧ ev'.event = ev.event ∧
        (ev'.deleted = true → k.id = id ∨ ev.deleted = true) ∧
        (ev.deleted = true ∨ k.id = id → ev'.deleted = true) := by
    intro k ev hget
    rw [events_softDelete, hget]
    refine ⟨_, rfl, ?_⟩
    split_ifs with hid
    · exact ⟨rfl, fun _ => .inl hid, fun _ => rfl⟩
    · exact ⟨rfl, .inr, fun h => h.resolve_right hid⟩
  refine ⟨hinv.softDelete id pick, hinv.home, ?_, ?_, ?_, ?_, ?_⟩
  · intro k ev hget hreaction hev
    rw [events_softDelete] at hget
    obtain ⟨old, hold, rfl⟩ := Option.map_eq_some_iff.mp hget
    split_ifs at hreaction hev ⊢ with hid
    · cases hev
    · exact hinv.row k old hold hreaction hev
  · intro key row hget hremoved
    obtain ⟨k, ev, hev, hsource, hreaction, hsaid, hwaits⟩ := hinv.source key row hget hremoved
    obtain ⟨ev', hev', hsame, hdead, -⟩ := hafter k ev hev
    refine ⟨k, ev', hev', hsource, hsame ▸ hreaction, hsame ▸ hsaid, ?_⟩
    intro hdeleted'
    rcases hdead hdeleted' with hid | hdead
    · refine ⟨s.started, ⟨target.event, .bySource⟩, by rw [Table.get?_set, if_pos rfl], ?_⟩
      rw [hinv.origin.key_unique hev hget₀ (hid.trans hid₀.symm), hget₀] at hev
      cases hev
      exact hsame.symm
    · obtain ⟨n, d, hd, hevent⟩ := hwaits hdead
      refine ⟨n, d, ?_, hevent.trans hsame.symm⟩
      rw [Table.get?_set, if_neg (hold n d hd), hd]
  · intro n d hd
    rw [Table.get?_set] at hd
    split_ifs at hd with hn
    · cases hd
      obtain ⟨ev', hev', hsame, -, hdead⟩ := hafter k₀ target hget₀
      exact ⟨rfl, k₀, ev', key₀, hev', hsame, hsame ▸ hkind, hdead (.inr hid₀), hrow₀⟩
    · obtain ⟨hstage, k, ev, key, hev, hevent, hreaction, hdead, hrow⟩ := hinv.waits n d hd
      obtain ⟨ev', hev', hsame, -, hdead'⟩ := hafter k ev hev
      exact ⟨hstage, k, ev', key, hev', hsame.trans hevent, hsame ▸ hreaction,
        hdead' (.inl hdead), hrow⟩
  · -- the target was live, so nobody else waits for it
    have hfirst : ∀ n d, s.pending.get? n = some d → d.event ≠ target.event := by
      intro n d hd hsame
      obtain ⟨-, k, ev, -, hev, hevent, -, hdead, -⟩ := hinv.waits n d hd
      have hk : k = k₀ := by
        rw [← (hinv.origin k ev hev).1, ← (hinv.origin k₀ target hget₀).1, hevent, hsame]
      rw [hk, hget₀] at hev
      cases hev
      rw [hlive₀] at hdead
      cases hdead
    intro n m d d' hd hd' hsame
    rw [Table.get?_set] at hd hd'
    split_ifs at hd with hn <;> split_ifs at hd' with hm
    · rw [hn, hm]
    · cases hd
      exact absurd hsame.symm (hfirst m d' hd')
    · cases hd'
      exact absurd hsame (hfirst n d hd)
    · exact hinv.once n m d d' hd hd' hsame
  · intro n hn
    have hlt : s.started < n := hn
    rw [Table.get?_set, if_neg hlt.ne', hinv.next n hlt.le]

theorem get?_removeWhere (reactions : Rows) (p : ReactionKey × Reaction → Bool)
    (key : ReactionKey) :
    (removeWhere reactions p).1.get? key = (reactions.get? key).map fun row =>
      if p (key, row) && !row.removed then { row with removed := true } else row :=
  Table.get?_setAll_update reactions (fun x => p x && !x.2.removed)
    (fun row => { row with removed := true }) key

theorem removed_pos {reactions : Rows} {p : ReactionKey × Reaction → Bool} {row : Reaction}
    (hget : reactions.get? key = some row) (hp : p (key, row) = true)
    (hactive : row.removed = false) : 0 < (removeWhere reactions p).2 := by
  refine List.length_pos_of_mem (a := (key, row)) ?_
  rw [List.mem_filter, Table.mem_toList]
  simp [hget, hp, hactive]

theorem inv_removeBySource {n : Nat} {d : Deletion} (hinv : Inv signed relay s)
    (hd : s.pending.get? n = some d) :
    0 < (removeReactionBySourceEventId s.reactions d.event.id).2 ∧
      Inv signed relay { s with
        reactions := (removeReactionBySourceEventId s.reactions d.event.id).1
        pending := s.pending.remove n } := by
  obtain ⟨-, k₀, ev₀, key₀, hev₀, hevent₀, -, hdead₀, hrow₀⟩ := hinv.waits n d hd
  have hid : ∀ {k ev}, s.db.events.get? k = some ev → (k.id = d.event.id ↔ k = k₀) := by
    intro k ev hev
    have hk₀ : k₀.id = d.event.id := by
      rw [← (hinv.origin k₀ ev₀ hev₀).1, hevent₀]
      rfl
    constructor
    · intro h
      exact hinv.origin.key_unique hev hev₀ (h.trans hk₀.symm)
    · rintro rfl
      exact hk₀
  have hget : ∀ key, (removeReactionBySourceEventId s.reactions d.event.id).1.get? key =
      (s.reactions.get? key).map fun row =>
        if row.reactionEventId == some d.event.id && !row.removed then { row with removed := true }
        else row := get?_removeWhere s.reactions _
  have hkept : ∀ {key k ev}, s.db.events.get? k = some ev → k ≠ k₀ →
      s.reactions.get? key = some ⟨false, some k.id⟩ →
      (removeReactionBySourceEventId s.reactions d.event.id).1.get? key =
        some ⟨false, some k.id⟩ := by
    intro key k ev hev hne hrow
    have hother : k.id ≠ d.event.id := fun h => hne ((hid hev).mp h)
    rw [hget, hrow]
    simp [hother]
  refine ⟨removed_pos hrow₀ ?_ rfl, hinv.origin, ?_, ?_, ?_, ?_, ?_, ?_⟩
  · rw [beq_iff_eq, (hid hev₀).mpr rfl]
  · intro key row h
    rw [hget] at h
    obtain ⟨old, hold, -⟩ := Option.map_eq_some_iff.mp h
    exact hinv.home key old hold
  · intro k ev hev hreaction hlive
    obtain ⟨key, hrow, hsaid⟩ := hinv.row k ev hev hreaction hlive
    refine ⟨key, hkept hev ?_ hrow, hsaid⟩
    rintro rfl
    rw [hev₀] at hev
    cases hev
    rw [hdead₀] at hlive
    cases hlive
  · intro key row h hremoved
    rw [hget] at h
    obtain ⟨old, hold, heq⟩ := Option.map_eq_some_iff.mp h
    split_ifs at heq with hsource
    · rw [← heq] at hremoved
      cases hremoved
    · rw [← heq] at hremoved ⊢
      obtain ⟨k, ev, hev, hsource', hreaction, hsaid, hwaits⟩ := hinv.source key old hold hremoved
      refine ⟨k, ev, hev, hsource', hreaction, hsaid, ?_⟩
      intro hdead
      obtain ⟨m, d', hd', hevent⟩ := hwaits hdead
      refine ⟨m, d', ?_, hevent⟩
      rw [Table.get?_remove, if_neg, hd']
      rintro rfl
      rw [hd] at hd'
      cases hd'
      refine hsource ?_
      have hk : k.id = d.event.id := by
        rw [← (hinv.origin k ev hev).1, hevent]
        rfl
      rw [hsource', hk, hremoved]
      simp
  · intro m d' hd'
    rw [Table.get?_remove] at hd'
    split_ifs at hd' with hm
    obtain ⟨hstage, k, ev, key, hev, hevent, hreaction, hdead, hrow⟩ := hinv.waits m d' hd'
    refine ⟨hstage, k, ev, key, hev, hevent, hreaction, hdead, hkept hev ?_ hrow⟩
    rintro rfl
    rw [hev₀] at hev
    cases hev
    exact hm (hinv.once m n d' d hd' hd (hevent.symm.trans hevent₀))
  · intro m m' d' d'' hd' hd''
    rw [Table.get?_remove] at hd' hd''
    split_ifs at hd' with hm
    split_ifs at hd'' with hm'
    exact hinv.once m m' d' d'' hd' hd''
  · intro m hm
    rw [Table.get?_remove, hinv.next m hm, ite_self]

/-! ## Runs -/

theorem inv_step {action : Action signed} (hinv : Inv signed relay s)
    (hkeeps : keepsSources relay s action) (hstep : step relay s action = some s') :
    Inv signed relay s' := by
  cases action with
  | reaction e channelId hsigned hkind =>
    rcases reaction_cases hstep with rfl | ⟨key, hreacts⟩
    · exact hinv
    · exact inv_reaction hinv hsigned hkind hkeeps hreacts
  | event e channelId params hsigned hkind =>
    simp only [step] at hstep
    split at hstep
    · rename_i db inserted hinsert
      cases hstep
      exact inv_event hinv hsigned hkind hinsert
    · cases hstep
      exact hinv
  | deletion id pick =>
    simp only [step, Option.bind_eq_bind, Option.bind_eq_some_iff] at hstep
    obtain ⟨target, htarget, hstep⟩ := hstep
    split_ifs at hstep with hlease hreaction
    · cases hstep
      exact hinv
    · cases hstep
      simp only [Bool.and_eq_true, beq_iff_eq] at hreaction
      exact inv_deletion hinv htarget hreaction.2 hreaction.1
    · cases hstep
      refine inv_softDelete_other pick hinv ?_
      intro k ev hget hid hlive hkind
      refine hreaction ?_
      obtain ⟨k', hget', hid', -⟩ := newest_some htarget
      rw [hinv.origin.key_unique hget' hget (hid'.trans hid.symm), hget] at hget'
      cases hget'
      have hmem : (k, target) ∈ s.db.liveRows id := mem_liveRows.mpr ⟨hget, hid, hlive⟩
      have hdeleted : (softDelete s.db id pick).2 = true := by
        rw [softDelete, softDeleteEventAndUpdateThread, deleted_softDelete, Bool.not_eq_true',
          List.isEmpty_eq_false_iff]
        exact List.ne_nil_of_mem hmem
      rw [hdeleted, hkind]
      rfl
  | removeBySource n =>
    simp only [step, Option.bind_eq_bind, Option.bind_eq_some_iff] at hstep
    obtain ⟨d, hd, hstep⟩ := hstep
    obtain ⟨hpos, hinv'⟩ := inv_removeBySource hinv hd
    rw [if_pos (hinv.waits n d hd).1, if_pos hpos] at hstep
    cases hstep
    exact hinv'
  | removeByTuple n =>
    simp only [step, Option.bind_eq_bind, Option.bind_eq_some_iff] at hstep
    obtain ⟨d, hd, hstep⟩ := hstep
    rw [if_neg (by rw [(hinv.waits n d hd).1]; decide)] at hstep
    cases hstep
  | deleteEvent channelId id pick =>
    have hlive : (∀ target, s.db.getEventByIdIncludingDeleted id = some target →
        target.channelId = some channelId) → ∀ k ev, s.db.events.get? k = some ev → k.id = id →
          ev.deleted = false → ev.event.kind ≠ reactionKind := by
      intro hchannel k ev hget hid hev
      have hfound : s.db.getEventById id = some ev :=
        hinv.origin.getEventById_iff.mpr ⟨k, hget, hid, hev⟩
      refine hkeeps ev hfound ?_
      cases htarget : s.db.getEventByIdIncludingDeleted id with
      | none => cases newest_none htarget hget hid
      | some target =>
        obtain ⟨k', hget', hid', -⟩ := newest_some htarget
        rw [hinv.origin.key_unique hget' hget (hid'.trans hid.symm), hget] at hget'
        cases hget'
        exact hchannel _ htarget
    simp only [step] at hstep
    cases htarget : s.db.getEventByIdIncludingDeleted id with
    | none =>
      simp only [htarget, Option.some.injEq] at hstep
      rw [← hstep]
      exact inv_softDelete_other pick hinv (hlive fun target h => by rw [htarget] at h; cases h)
    | some target =>
      simp only [htarget] at hstep
      split_ifs at hstep with hchannel
      · cases hstep
        refine inv_softDelete_other pick hinv (hlive ?_)
        intro target' h
        rw [htarget] at h
        cases h
        exact hchannel
      · cases hstep
        exact hinv

theorem liveSources_iff (hinv : Inv signed relay s) :
    LiveSources relay s ↔ ∀ n, s.pending.get? n = none := by
  constructor
  · intro hsources n
    cases hd : s.pending.get? n with
    | none => rfl
    | some d =>
      obtain ⟨-, k, ev, key, hev, -, -, hdead, hrow⟩ := hinv.waits n d hd
      obtain ⟨k', ev', hev', hid, hlive, -⟩ := hsources.live key _ k.id hrow rfl rfl
      rw [hinv.origin.key_unique hev' hev hid, hev] at hev'
      cases hev'
      rw [hdead] at hlive
      cases hlive
  · intro hidle
    refine ⟨?_, ?_⟩
    · intro key row id hrow hremoved hsource
      obtain ⟨k, ev, hev, hid, hreaction, hsaid, hwaits⟩ := hinv.source key row hrow hremoved
      refine ⟨k, ev, hev, ?_, ?_, hreaction, hsaid⟩
      · rw [hid] at hsource
        cases hsource
        rfl
      · rw [← Bool.not_eq_true]
        intro hdead
        obtain ⟨n, d, hd, -⟩ := hwaits hdead
        rw [hidle n] at hd
        cases hd
    · intro k k' ev ev' hev hev' hlive hlive' hreaction hreaction' hsame
      obtain ⟨key, hrow, hsaid⟩ := hinv.row k ev hev hreaction hlive
      obtain ⟨key', hrow', hsaid'⟩ := hinv.row k' ev' hev' hreaction' hlive'
      obtain ⟨e, hsigned, hstamp⟩ := hinv.home key _ hrow
      obtain ⟨e', hsigned', hstamp'⟩ := hinv.home key' _ hrow'
      rw [← key_of_said hsigned hsigned' hstamp hstamp'
        (hsaid.symm.trans (hsame.trans hsaid')), hrow] at hrow'
      simp only [Option.some.injEq, Reaction.mk.injEq, true_and] at hrow'
      exact hinv.origin.key_unique hev hev' hrow'

/-- In a run in which no deleted kind 7 event becomes a source again and kind 9005 deletes no live
one, every active reaction has a live source exactly when no kind 5 deletion stands between its two
transactions. -/
theorem active_reactions_live {actions : List (Action signed)}
    (hmeets : Meets (step relay) (keepsSources relay) (.init .empty) actions)
    (hrun : run (step relay) (.init .empty) actions = some s) :
    LiveSources relay s ↔ ∀ n, s.pending.get? n = none :=
  liveSources_iff (run_invariant_of_meets (Inv signed relay)
    (fun _ _ _ hinv hkeeps hstep => inv_step hinv hkeeps hstep) (Inv.init signed relay) hmeets hrun)

/-! ## One reaction and its deletions -/

def message : Events.Event := ⟨1, 7, 100, 9, [], "", Events.time100_lt⟩

def like : Events.Event :=
  ⟨2, 8, 200, 7, [⟨"e", ["0000000000000000000000000000000000000000000000000000000000000001"]⟩], "",
    Events.time200_lt⟩

def twoEvents : Signed where
  has e := e = message ∨ e = like
  id_injective := by
    rintro e e' (rfl | rfl) (rfl | rfl) h
    all_goals first | rfl | exact absurd h (by decide)

instance (relay : PubKey) (s : State) :
    (action : Action signed) → Decidable (keepsSources relay s action)
  | .reaction e _ _ _ => inferInstanceAs (Decidable (∀ key ∈ reactionKey relay s.db e,
      (∀ row ∈ s.reactions.get? key, row.removed = true) →
        ∀ ev ∈ s.db.events.get? e.stamp, ev.deleted = false))
  | .deleteEvent channelId id _ => inferInstanceAs (Decidable (∀ ev ∈ s.db.getEventById id,
      ev.channelId = some channelId → ev.event.kind ≠ reactionKind))
  | .event _ _ _ _ _ | .deletion _ _ | .removeBySource _ | .removeByTuple _ => isTrue trivial

def react : Action twoEvents := .reaction like (some 5) (.inr rfl) rfl

def sendAndReact : List (Action twoEvents) :=
  [.event message (some 5) none (.inl rfl) (by decide), react]

def counted (s : State) : Bool :=
  s.reactions.get? ⟨⟨100, 1⟩, 8, "+"⟩ == some ⟨false, some 2⟩ &&
    (s.db.events.get? ⟨200, 2⟩).any (·.deleted)

theorem not_liveSources_of_counted (hcounted : counted s = true)
    (hone : ∀ k ev, s.db.events.get? k = some ev → k.id = 2 → k = ⟨200, 2⟩) :
    ¬ LiveSources 99 s := by
  simp only [counted, Bool.and_eq_true, beq_iff_eq, Option.any_eq_true] at hcounted
  obtain ⟨hrow, ev, hev, hdead⟩ := hcounted
  intro hsources
  obtain ⟨k, ev', hev', hid, hlive, -⟩ := hsources.live _ _ 2 hrow rfl rfl
  rw [hone k ev' hev' hid, hev] at hev'
  cases hev'
  rw [hdead] at hlive
  cases hlive

theorem active_reactions_live_after_deletion :
    ∃ s, run (step 99) (.init .empty) (sendAndReact ++ [Action.deletion 2 0, .removeBySource 0]) = some s ∧
      LiveSources 99 s := by
  have hmeets : Meets (step 99) (keepsSources 99) (.init .empty)
      (sendAndReact ++ [Action.deletion 2 0, .removeBySource 0]) := by
    decide +kernel
  have hrun : ((run (step 99) (.init .empty)
      (sendAndReact ++ [Action.deletion 2 0, .removeBySource 0])).any fun s =>
        s.pending.toList.isEmpty) = true := by
    decide +kernel
  obtain ⟨s, hs, hempty⟩ := (Option.any_eq_true _ _).mp hrun
  refine ⟨s, hs, (active_reactions_live hmeets hs).mpr ?_⟩
  intro n
  cases hd : s.pending.get? n with
  | none => rfl
  | some d =>
    have hmem := (Table.mem_toList _ _ _).mpr hd
    rw [List.isEmpty_iff.mp hempty] at hmem
    cases hmem

/-- Kind 9005 leaves the row of the reaction active. A later kind 5 deletion finds nothing to delete
and does not remove it either. -/
theorem deleted_event_stays_counted :
    ∃ s, run (step 99) (.init .empty) (sendAndReact ++ [Action.deleteEvent 5 2 0, .deletion 2 0]) = some s ∧
      (∀ n, s.pending.get? n = none) ∧ s.reactions.get? ⟨⟨100, 1⟩, 8, "+"⟩ = some ⟨false, some 2⟩ ∧
      ¬ LiveSources 99 s := by
  have hrun : ((run (step 99) (.init .empty)
      (sendAndReact ++ [Action.deleteEvent 5 2 0, .deletion 2 0])).any fun s =>
        s.pending.toList.isEmpty && counted s &&
          s.db.events.toList.all fun x => x.1.id != 2 || x.1 == ⟨200, 2⟩) = true := by
    decide +kernel
  obtain ⟨s, hs, hfacts⟩ := (Option.any_eq_true _ _).mp hrun
  simp only [Bool.and_eq_true, List.isEmpty_iff, List.all_eq_true, Bool.or_eq_true, bne_iff_ne,
    beq_iff_eq] at hfacts
  obtain ⟨⟨hempty, hcounted⟩, hone⟩ := hfacts
  refine ⟨s, hs, ?_, ?_, not_liveSources_of_counted hcounted ?_⟩
  · intro n
    cases hd : s.pending.get? n with
    | none => rfl
    | some d =>
      have hmem := (Table.mem_toList _ _ _).mpr hd
      rw [hempty] at hmem
      cases hmem
  · simp only [counted, Bool.and_eq_true, beq_iff_eq] at hcounted
    exact hcounted.1
  · intro k ev hev hid
    exact (hone (k, ev) ((Table.mem_toList _ _ _).mpr hev)).resolve_left (not_not.mpr hid)

end Vingilot.Threads.Reactions
