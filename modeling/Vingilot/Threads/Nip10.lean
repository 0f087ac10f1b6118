import Vingilot.Git.Manifest
import Vingilot.Threads.Store

/-!
# Ancestry of a reply (`buzz-relay/src/handlers/ingest.rs`)

The `root` and `reply` markers of a reply must agree with what the relay knows of its parent: the
metadata row when there is one, and the markers of the parent's own tags otherwise.
-/

namespace Vingilot.Threads

open Events (EventId Stamp DbError Signed)

/-! ## Markers -/

def hexValue (c : Char) : Nat :=
  if c ≤ '9' then c.toNat - '0'.toNat
  else if c ≤ 'F' then c.toNat - 'A'.toNat + 10
  else c.toNat - 'a'.toNat + 10

def decodeId (s : String) : Option EventId :=
  if s.utf8ByteSize = 64 ∧ s.toList.all Git.isHexDigit then
    some (.ofNat 256 (s.toList.foldl (fun n c => n * 16 + hexValue c) 0))
  else none

/-- The id in an `e` tag whose fourth part is the marker. -/
def marked (marker : String) (t : Tag) : Option EventId :=
  if t.kind = "e" ∧ t.values[2]? = some marker then t.content.bind decodeId else none

/-- The root and the parent that a reply names. The last tag of a marker counts. A `root` marker
alone makes no reply. -/
def replyTo (e : Events.Event) : Option (EventId × EventId) :=
  let last (marker : String) := (e.tags.filterMap (marked marker)).getLast?
  match last "root", last "reply" with
  | some root, some pid => some (root, pid)
  | none, some pid => some (pid, pid)
  | _, none => none

def ownRoot (parent : Events.Event) (pid : EventId) : EventId :=
  ((parent.tags.findSome? (marked "root")).or (parent.tags.findSome? (marked "reply"))).getD pid

def broadcasts (e : Events.Event) : Bool :=
  e.tags.any fun t => t.kind == "broadcast" && t.content == some "1"

/-! ## Ingest -/

def Db.createdAtOr (db : Db) (id : EventId) (default : Int) : Int :=
  ((db.getEventById id).map (·.event.time)).getD default

def resolveNip10ThreadMeta (db : Db) (e : Events.Event) (channelId : Uuid) (pick : Nat) :
    Except String (Option ThreadMetadataParams) :=
  match replyTo e with
  | none => .ok none
  | some (clientRoot, pid) =>
    match db.getEventById pid with
    | none => .error "reply parent not found"
    | some parent =>
      if parent.channelId = none then .error "parent event has no channel association"
      else if parent.channelId ≠ some channelId then
        .error "parent event belongs to a different channel"
      else
        -- a stored event has a valid time
        let parentCreated := parent.event.time
        match db.getThreadMetadataByEvent pid pick with
        | some row =>
          let root := row.rootEventId.getD pid
          if clientRoot ≠ root then .error "root tag does not match thread ancestry"
          else if row.depth + 1 > 100 then .error "thread depth limit exceeded"
          else .ok (some ⟨channelId, some pid, some parentCreated, some root,
            some (db.createdAtOr root parentCreated), row.depth + 1, broadcasts e⟩)
        | none =>
          let root := ownRoot parent.event pid
          if clientRoot ≠ root then .error "root tag does not match thread ancestry"
          else .ok (some ⟨channelId, some pid, some parentCreated, some root,
            some (if root ≠ pid then db.createdAtOr root parentCreated else parentCreated),
            if root = pid then 1 else 2, broadcasts e⟩)

def requiresHChannelScope (kind : Kind) : Bool :=
  [9, 40002, 40003, 40004, 40005, 40006, 40007, 40008, 40100, 45001, 45002, 45003, 9000, 9001, 9002,
    9005, 9008, 9022, 48100, 48101, 48102, 48103, 48106].contains kind

def threadMeta (db : Db) (e : Events.Event) (channelId : Option Uuid) (pick : Nat) :
    Except String (Option ThreadMetadataParams) :=
  if requiresHChannelScope e.kind then
    match channelId with
    | some channelId => resolveNip10ThreadMeta db e channelId pick
    | none => .ok none
  else .ok none

inductive IngestError where
  | rejected (message : String)
  | internal (error : DbError)

/-- The last steps of ingest. `false` means that the event was stored already. -/
def ingest (db : Db) (e : Events.Event) (channelId : Option Uuid) (pick : Nat) :
    Except IngestError (Db × Bool) :=
  match threadMeta db e channelId pick with
  | .error message => .error (.rejected ("invalid: " ++ message))
  | .ok params =>
    match insertEventWithThreadMetadata db e channelId params with
    | .ok result => .ok result
    | .error .authEventRejected => .error (.rejected "invalid: AUTH events cannot be stored")
    | .error error => .error (.internal error)

/-- The metadata of a message that a workflow sends (`workflow_sink.rs`). -/
def topLevel (channelId : Uuid) : ThreadMetadataParams :=
  ⟨channelId, none, none, none, none, 0, false⟩

/-! ## Places -/

structure Place where
  root : Option EventId
  depth : Int
deriving DecidableEq

def Place.top : Place := ⟨none, 0⟩

/-- The place of a reply to the event `id`. -/
def Place.child (place : Place) (id : EventId) : Place :=
  ⟨some (place.root.getD id), place.depth + 1⟩

def ThreadMetadata.place (row : ThreadMetadata) : Place := ⟨row.rootEventId, row.depth⟩

def ThreadMetadataParams.place (params : ThreadMetadataParams) : Place :=
  ⟨params.rootEventId, params.depth⟩

def ownPlace (parent : Events.Event) (pid : EventId) : Place :=
  if ownRoot parent pid = pid then .top else ⟨some (ownRoot parent pid), 1⟩

def Db.placeOf (db : Db) (parent : Events.Event) (pid : EventId) (pick : Nat) : Place :=
  match db.getThreadMetadataByEvent pid pick with
  | some row => row.place
  | none => ownPlace parent pid

def decision (db : Db) (e : Events.Event) (channelId : Uuid) (pick : Nat) :
    Except String (Option Place) :=
  (resolveNip10ThreadMeta db e channelId pick).map (Option.map ThreadMetadataParams.place)

def verdict (parentChannel : Option Uuid) (place : Place) (clientRoot pid : EventId)
    (channelId : Uuid) : Except String (Option Place) :=
  if parentChannel = none then .error "parent event has no channel association"
  else if parentChannel ≠ some channelId then .error "parent event belongs to a different channel"
  else if clientRoot ≠ place.root.getD pid then .error "root tag does not match thread ancestry"
  else if place.depth + 1 > 100 then .error "thread depth limit exceeded"
  else .ok (some (place.child pid))

section Spec

variable {db : Db} {e : Events.Event} {channelId : Uuid} {pick : Nat} {root pid : EventId}
  {parent : EventRow}

@[simp]
theorem root_ownPlace (parent : Events.Event) (pid : EventId) :
    (ownPlace parent pid).root.getD pid = ownRoot parent pid := by
  unfold ownPlace
  split_ifs with h
  · exact h.symm
  · rfl

theorem depth_ownPlace (parent : Events.Event) (pid : EventId) :
    (ownPlace parent pid).depth + 1 = if ownRoot parent pid = pid then 1 else 2 := by
  unfold ownPlace
  split_ifs <;> rfl

theorem decision_reply (hreply : replyTo e = some (root, pid))
    (hparent : db.getEventById pid = some parent) :
    decision db e channelId pick =
      verdict parent.channelId (db.placeOf parent.event pid pick) root pid channelId := by
  unfold decision resolveNip10ThreadMeta verdict Db.placeOf
  simp only [hreply, hparent]
  cases db.getThreadMetadataByEvent pid pick with
  | some row =>
    simp only [apply_ite (Except.map (Option.map ThreadMetadataParams.place))]
    rfl
  | none =>
    -- by its own tags a parent is at depth 1 at most
    have hdepth := depth_ownPlace parent.event pid
    have hlimit : ¬ (ownPlace parent.event pid).depth + 1 > 100 := by
      rw [hdepth]
      split_ifs <;> decide
    simp only [root_ownPlace, if_neg hlimit]
    have hchild : (ownPlace parent.event pid).child pid =
        ⟨some (ownRoot parent.event pid), if ownRoot parent.event pid = pid then 1 else 2⟩ := by
      rw [Place.child, root_ownPlace, hdepth]
    simp only [hchild, apply_ite (Except.map (Option.map ThreadMetadataParams.place))]
    rfl

theorem decision_orphan (hreply : replyTo e = some (root, pid))
    (hparent : db.getEventById pid = none) :
    decision db e channelId pick = .error "reply parent not found" := by
  unfold decision resolveNip10ThreadMeta
  rw [hreply]
  simp only [hparent]
  rfl

structure Replies (db : Db) (e : Events.Event) (channelId : Uuid) (pick : Nat)
    (params : ThreadMetadataParams) (parent : EventRow) (pid : EventId) : Prop where
  reply : replyTo e = some ((db.placeOf parent.event pid pick).root.getD pid, pid)
  stored : db.getEventById pid = some parent
  channel : parent.channelId = some channelId
  parentEventId : params.parentEventId = some pid
  parentEventCreatedAt : params.parentEventCreatedAt = some parent.event.time
  place : params.place = (db.placeOf parent.event pid pick).child pid

theorem resolve_cases {params : ThreadMetadataParams}
    (h : resolveNip10ThreadMeta db e channelId pick = .ok (some params)) :
    ∃ parent pid, Replies db e channelId pick params parent pid := by
  unfold resolveNip10ThreadMeta at h
  split at h
  · cases h
  rename_i clientRoot pid hreply
  split at h
  · cases h
  rename_i parent hparent
  split_ifs at h with hnone hother
  have hchannel : parent.channelId = some channelId := not_not.mp hother
  refine ⟨parent, pid, ?_⟩
  simp only at h
  cases hrow : db.getThreadMetadataByEvent pid pick with
  | some row =>
    have hplace : db.placeOf parent.event pid pick = row.place := by
      simp only [Db.placeOf, hrow]
    simp only [hrow] at h
    split_ifs at h with hroot hlimit
    cases h
    refine ⟨?_, hparent, hchannel, rfl, rfl, ?_⟩
    · rw [hreply, hplace, not_not.mp hroot]
      rfl
    · rw [hplace]
      rfl
  | none =>
    have hplace : db.placeOf parent.event pid pick = ownPlace parent.event pid := by
      simp only [Db.placeOf, hrow]
    have hdepth := depth_ownPlace parent.event pid
    simp only [hrow] at h
    by_cases hroot : clientRoot = ownRoot parent.event pid
    · rw [if_neg (not_not.mpr hroot), ← hdepth] at h
      cases h
      refine ⟨?_, hparent, hchannel, rfl, rfl, ?_⟩
      · rw [hreply, hplace, root_ownPlace, hroot]
      · simp only [hplace, ThreadMetadataParams.place, Place.child, root_ownPlace]
    · rw [if_pos hroot] at h
      cases h

end Spec

end Vingilot.Threads
