import Vingilot.Query.Params
import Vingilot.Subscription.Registry

/-! # The `REQ` handler (`buzz-relay/src/handlers/req.rs`)

The reads of the handler outside the relay's memory are its arguments: the reader's channels,
its memberships, and the events table each of the filter queries finds.
-/

namespace Vingilot.Query

open Subscription (ConnId SubId SubscriptionRegistry filtersMatch registerScoped)

/-! ## Connections -/

inductive Scope where
  | messagesRead | messagesWrite | channelsRead | channelsWrite | adminChannels
  | usersRead | usersWrite | adminUsers | jobsRead | jobsWrite
  | subscriptionsRead | subscriptionsWrite | filesRead | filesWrite
  | reposRead | reposWrite | unknown (name : String)
deriving DecidableEq

structure AuthContext where
  pubkey : String
  scopes : List Scope
  channelIds : Option (List Uuid)

structure Connection where
  connId : ConnId
  community : CommunityId
  auth : Option AuthContext
  subscriptions : Table SubId (List ReqFilter)

/-- The lookups of the reader's channels. `none` is a database error. -/
structure Memberships where
  accessibleCached : Option (List Uuid)
  isMember : Uuid → Option Bool

def maxSubscriptions : Nat := 1024

/-! ## Channel access -/

def tokenAllows (token : Option (List Uuid)) (chId : Uuid) : Bool :=
  match token with
  | some allowed => allowed.contains chId
  | none => true

def narrowToToken (token : Option (List Uuid)) (accessible : List Uuid) : List Uuid :=
  accessible.filter (tokenAllows token)

def filtersAreNip43MembershipOnly (filters : List ReqFilter) : Bool :=
  !filters.isEmpty && filters.all fun f =>
    match f.kinds with
    | some kinds => !kinds.isEmpty && kinds.all fun kind => kind == 13534
    | none => false

/-- `resolve_request_local_access`: the repaired channels, or `none` when access is denied. -/
def resolveRequestLocalAccess (accessible : List Uuid) (chId : Uuid) (tokenAllows : Bool)
    (dbIsMember : Option Bool) : Option (List Uuid) :=
  if !tokenAllows then none
  else if accessible.contains chId then some accessible
  else
    match dbIsMember with
    | some true => some (accessible ++ [chId])
    | _ => none

def requestAccess (db : Memberships) (token : Option (List Uuid)) (filters : List ReqFilter) :
    Except String (List Uuid) :=
  let cached := if filtersAreNip43MembershipOnly filters then some [] else db.accessibleCached
  match cached with
  | none => .error "error: database error"
  | some ids =>
    let accessible := narrowToToken token ids
    match extractChannelIdFromFilters filters with
    | none => .ok accessible
    | some chId =>
      let allows := tokenAllows token chId
      let known := !allows || accessible.contains chId
      if !known && (db.isMember chId).isNone then .error "error: database error"
      else
        let dbIsMember := if known then none else db.isMember chId
        match resolveRequestLocalAccess accessible chId allows dbIsMember with
        | some repaired => .ok repaired
        | none => .error "restricted: not a channel member"

def globalGate (filters : List ReqFilter) (reader : String) : Option String :=
  if !pGatedFiltersAuthorized filters reader then
    some "restricted: p-gated events require #p matching your pubkey"
  else if !engramFiltersAuthorized filters reader then
    some "restricted: agent-engram reads require authors=[self] or #p=[self]"
  else if !authorOnlyFiltersAuthorized filters reader then
    some "restricted: author-only kinds require authors=[self]"
  else none

/-- A `REQ` for one channel can receive no globally stored event and passes ungated. -/
def reqGate (filters : List ReqFilter) (reader : String) : Option String :=
  if (extractChannelIdFromFilters filters).isNone then globalGate filters reader else none

/-! ## Historical delivery -/

def reqQuery (community : CommunityId) (reader : String) (channelId : Option Uuid)
    (accessible : List Uuid) (f : ReqFilter) : EventQuery :=
  let q := historicalQuery f channelId community accessible
  if filterCanMatchSharedGatedKinds f then { q with sharedGatedReader := some reader } else q

def inAccessible (accessible : List Uuid) (row : Row) : Bool :=
  match row.channelId with
  | some chId => accessible.contains chId
  | none => true

def deliverRow (accessible : List Uuid) (reader : String) (f : ReqFilter) (sent : List Event)
    (row : Row) : List Event :=
  if !filtersMatch [f.toFilter] row.stored then sent
  else if !inAccessible accessible row then sent
  else if !eventVisibleToReader row.event reader then sent
  else if sent.any fun e => e.id == row.event.id then sent
  else sent ++ [row.event]

def deliverFilters (tables : Nat → List Row) (query : ReqFilter → EventQuery)
    (accessible : List Uuid) (reader : String) (idx : Nat) (sent : List Event) :
    List ReqFilter → List Event
  | [] => sent
  | f :: rest =>
    match queryEvents (tables idx) (query f) with
    | .error _ => sent
    | .ok rows =>
      deliverFilters tables query accessible reader (idx + 1)
        (rows.foldl (deliverRow accessible reader f) sent) rest

/-! ## The handler -/

/-- A `REQ` that registers nothing. Search filters go to the full-text search. -/
inductive ReqEnd where
  | closed (text : String)
  | searched

structure ReqAnswer where
  reader : String
  accessible : List Uuid
  channelId : Option Uuid
  registry : SubscriptionRegistry
  subscriptions : Table SubId (List ReqFilter)
  events : List Event

def registerAndDeliver (subId : SubId) (filters : List ReqFilter) (conn : Connection)
    (registry : SubscriptionRegistry) (tables : Nat → List Row) (reader : String)
    (accessible : List Uuid) : ReqAnswer :=
  let channelId := extractChannelIdFromFilters filters
  { reader
    accessible
    channelId
    registry := (registerScoped registry conn.community conn.connId subId
      (filters.map ReqFilter.toFilter) channelId).1
    subscriptions := conn.subscriptions.set subId filters
    events := deliverFilters tables (reqQuery conn.community reader channelId accessible)
      accessible reader 0 [] filters }

def handleReq (subId : SubId) (filters : List ReqFilter) (conn : Connection) (db : Memberships)
    (registry : SubscriptionRegistry) (tables : Nat → List Row) : Except ReqEnd ReqAnswer :=
  match conn.auth with
  | none => .error (.closed "auth-required: not authenticated")
  | some ctx =>
    if !ctx.scopes.isEmpty && !ctx.scopes.contains .messagesRead then
      .error (.closed "restricted: insufficient scope")
    else if (conn.subscriptions.get? subId).isNone &&
        decide (maxSubscriptions ≤ conn.subscriptions.toList.length) then
      .error (.closed "error: too many subscriptions")
    else
      match requestAccess db ctx.channelIds filters with
      | .error text => .error (.closed text)
      | .ok accessible =>
        match reqGate filters ctx.pubkey with
        | some text => .error (.closed text)
        | none =>
          if filters.any fun f => f.search.isSome then
            if filters.any fun f => f.search.isNone then
              .error (.closed "error: mixed search and non-search filters not supported")
            else .error .searched
          else .ok (registerAndDeliver subId filters conn registry tables ctx.pubkey accessible)

theorem handleReq_ok {subId : SubId} {filters : List ReqFilter} {conn : Connection}
    {db : Memberships} {registry : SubscriptionRegistry} {tables : Nat → List Row}
    {answer : ReqAnswer} (h : handleReq subId filters conn db registry tables = .ok answer) :
    ∃ reader accessible,
      answer = registerAndDeliver subId filters conn registry tables reader accessible := by
  unfold handleReq at h
  split at h
  · cases h
  split at h
  · cases h
  split at h
  · cases h
  split at h
  · cases h
  split at h
  · cases h
  split at h
  · split at h <;> cases h
  cases h
  exact ⟨_, _, rfl⟩

end Vingilot.Query
