import Vingilot.Threads.Pages

/-!
# Routed reads (`buzz-db/src/lib.rs`)

A read goes to the replica when the fence proves enough of its snapshot, and to the writer in every
other case. A snapshot is held from the observation of the heartbeat to the last statement.
-/

namespace Vingilot

namespace Fence

def fenceStaleness : Nat := 30 * 1000000

def ReplicaFence.newest (f : ReplicaFence) (now : Nat) : Option TokenEntry :=
  f.ring.getLast?.filter fun entry => now - entry.committedAt ≤ fenceStaleness

end Fence

namespace Threads

open Events (EventId)
open Fence (TokenEntry ReplicaFence)

structure Session where
  token : Int
  epoch : Uuid
  snapshot : Db

structure Route where
  readPool : Bool
  replicaReadMaxAge : Option Nat
  shared : ReplicaFence
  checkedAt : Nat
  session : Except String Session
  fence : ReplicaFence
  provedAt : Nat
  cancelled : Option String

inductive RoutePredicate where
  | bounded
  | covered (upper : Int)
  | coveredPostVerified
  | boundedOrCovered (upper : Int)

def RoutePredicate.fromChannelCursor : Option WindowCursor → RoutePredicate
  | some cursor => .covered cursor.ts
  | none => .bounded

inductive RouteDecision where
  | replica (snapshot : Db) (entry : TokenEntry) (reason : String)
  | writer (reason : String)

inductive Source where
  | replica
  | writer
deriving DecidableEq

namespace Route

/-- A snapshot with the entry of the fence that proves it. -/
def provedReader (r : Route) : Except String (Db × TokenEntry) :=
  match r.session with
  | .error reason => .error reason
  | .ok s =>
    match r.fence.resolve s.token s.epoch with
    | .proved entry => .ok (s.snapshot, entry)
    | .epochMismatch => .error "reader_validation_error"
    | .tokenBehind => .error "reader_token_behind"

def precheck (r : Route) (newest : TokenEntry) : RoutePredicate → Option String
  | .bounded => bounded
  | .covered upper => covered upper
  | .coveredPostVerified => none
  | .boundedOrCovered upper => (covered upper).bind fun _ => bounded
where
  bounded : Option String :=
    match r.replicaReadMaxAge with
    | some budget => if r.checkedAt - newest.committedAt ≤ budget then none else some "stale"
    | none => some "disabled"
  covered (upper : Int) : Option String := if upper ≤ newest.fenceWall then none else some "stale"

def verdict (r : Route) (entry : TokenEntry) : RoutePredicate → Option String
  | .bounded => if boundedHolds then some "fresh" else none
  | .covered upper => if upper ≤ entry.fenceWall then some "covered" else none
  | .coveredPostVerified => some "covered"
  | .boundedOrCovered upper =>
    if upper ≤ entry.fenceWall then some "covered" else if boundedHolds then some "fresh" else none
where
  boundedHolds : Bool :=
    r.replicaReadMaxAge.any fun budget => r.provedAt - entry.committedAt ≤ budget

def routeRead (r : Route) (predicate : RoutePredicate) : RouteDecision :=
  if r.readPool = false then .writer "disabled"
  else match r.shared.newest r.checkedAt with
    | none => .writer "uninitialized"
    | some newest =>
      match r.precheck newest predicate with
      | some reason => .writer reason
      | none =>
        match r.provedReader with
        | .error reason => .writer reason
        | .ok (snapshot, entry) =>
          match r.verdict entry predicate with
          | some reason => .replica snapshot entry reason
          | none => .writer "stale"

def onReplica {α : Type} (r : Route) (page : Except PageError α) : Except PageError α :=
  match r.cancelled with
  | some text => .error (.sqlx text)
  | none => page

section Pages

-- `writer` is a session of the writer's pool.
variable (parse : EventRow → Option Events.Event) (writer : Except PageError Db)

def getThreadReplies (r : Route) (root : EventId) (depthLimit : Option (BitVec 32))
    (limit : BitVec 32) (cursor : Option (List UInt8)) :
    Except PageError (List ThreadReply × Source) :=
  let onWriter := (writer.bind fun db => getThreadRepliesOn parse db root depthLimit limit cursor).map
    fun replies => (replies, Source.writer)
  match r.routeRead (if cursor.isSome then .coveredPostVerified else .bounded) with
  | .writer _ => onWriter
  | .replica snapshot entry _ =>
    match r.onReplica (getThreadRepliesOn parse snapshot root depthLimit limit cursor) with
    | .error _ => onWriter
    | .ok replies =>
      if cursor.isNone then .ok (replies, .replica)
      -- A full page at or below the wall.
      else if limit.toNat ≤ replies.length ∧
          replies.getLast?.any (fun tail => Fence.secs tail.createdAt ≤ entry.fenceWall) then
        .ok (replies, .replica)
      else onWriter

def getChannelWindow (r : Route) (channelId : Uuid) (limit : BitVec 32)
    (cursor : Option WindowCursor) (kinds : Option (List Kind)) :
    Except PageError (ChannelWindow × Source) :=
  let onWriter := (writer.bind fun db => getChannelWindowOn parse db channelId limit cursor kinds).map
    fun window => (window, Source.writer)
  match r.routeRead (.fromChannelCursor cursor) with
  | .writer _ => onWriter
  | .replica snapshot _ _ =>
    match r.onReplica (getChannelWindowOn parse snapshot channelId limit cursor kinds) with
    | .error _ => onWriter
    | .ok window => .ok (window, .replica)

end Pages

/-! ## When the replica serves -/

variable {r : Route}

theorem routeRead_replica {predicate : RoutePredicate} {snapshot : Db} {entry : TokenEntry}
    {reason : String} (h : r.routeRead predicate = .replica snapshot entry reason) :
    ∃ s, r.session = .ok s ∧ s.snapshot = snapshot ∧
      r.fence.resolve s.token s.epoch = .proved entry ∧ r.verdict entry predicate = some reason := by
  unfold routeRead at h
  split_ifs at h
  split at h
  · cases h
  · split at h
    · cases h
    · cases hproved : r.provedReader with
      | error e =>
        rw [hproved] at h
        cases h
      | ok p =>
        obtain ⟨snapshot', entry'⟩ := p
        simp only [hproved] at h
        split at h
        · next hverdict =>
          cases h
          unfold provedReader at hproved
          cases hsession : r.session with
          | error e =>
            rw [hsession] at hproved
            cases hproved
          | ok s =>
            simp only [hsession] at hproved
            split at hproved
            · next hresolve =>
              cases hproved
              exact ⟨s, rfl, rfl, hresolve, hverdict⟩
            · cases hproved
            · cases hproved
        · cases h

theorem covered_of_verdict {entry : TokenEntry} {cursor : WindowCursor} {reason : String}
    (h : r.verdict entry (.fromChannelCursor (some cursor)) = some reason) :
    cursor.ts ≤ entry.fenceWall := by
  by_contra hnot
  simp [RoutePredicate.fromChannelCursor, verdict, hnot] at h

theorem onReplica_ok {α : Type} {page : Except PageError α} {x : α} (h : r.onReplica page = .ok x) :
    page = .ok x := by
  unfold onReplica at h
  split at h
  · cases h
  · exact h

end Route

end Threads

end Vingilot
