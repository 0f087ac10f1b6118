import Vingilot.Query.Req

/-! # The `COUNT` handler (`buzz-relay/src/handlers/count.rs`)

Each filter is counted on its own, in SQL alone when the filter allows it and otherwise row by
row, and the counts are added up.
-/

namespace Vingilot.Query

open Subscription (filtersMatch)

/-! ## One filter's query -/

/-- `extract_channel_from_filter` of the handler: a filter with exactly one `#h` value. -/
def extractChannelFromFilter (f : ReqFilter) : Option Uuid := singleChannel f

/-- `build_event_query_from_filter`. -/
def buildEventQueryFromFilter (f : ReqFilter) (community : CommunityId) : EventQuery :=
  filterToQueryParams f (extractChannelIdFromFilter f) community

/-- One tag letter of `filter_fully_pushable`. -/
def tagPushable (f : ReqFilter) (tagKey : Char) (tagValues : List String) : Bool :=
  match tagKey with
  | 'h' => decide (tagValues.length ≤ 1)
  | 'p' => decide (tagValues.length ≤ 1)
  | 'd' => tagValues.isEmpty || f.nip33Only
  | 'e' => true
  | _ => tagValues.isEmpty

def filterFullyPushable (f : ReqFilter) : Bool :=
  (f.genericTags.all fun (tagKey, tagValues) => tagPushable f tagKey tagValues) && f.search.isNone

def countFallbackCandidateLimit : Int := 5000

def applyCountFallbackLimit (q : EventQuery) : EventQuery :=
  { q with
    limit := some (countFallbackCandidateLimit + 1)
    maxLimit := some (countFallbackCandidateLimit + 1) }

def countFallbackExceeded (candidateCount : Nat) : Bool :=
  decide (countFallbackCandidateLimit < candidateCount)

def withSharedGate (f : ReqFilter) (reader : String) (q : EventQuery) : EventQuery :=
  if filterCanMatchSharedGatedKinds f then { q with sharedGatedReader := some reader } else q

def countsInSql (f : ReqFilter) (reader : String) : Bool :=
  let needsResultGatedFiltering :=
    filterCanMatchResultGatedKinds f && !resultGatedCountSafeForPushdown f reader
  filterFullyPushable f && (!filterCanMatchAuthorOnlyKinds f || onlySelf f.authors reader) &&
    !needsResultGatedFiltering && !filterCanMatchSharedGatedKinds f

/-! ## The handler -/

/-- A `COUNT` that is not answered with a number. -/
inductive CountEnd where
  | closed (text : String)
  | dbError (error : DbError)
deriving DecidableEq

def countsRow (f : ReqFilter) (reader : String) (row : Row) : Bool :=
  filtersMatch [f.toFilter] row.stored && eventVisibleToReader row.event reader

def countWith (table : List Row) (f : ReqFilter) (reader : String) (q : EventQuery) :
    Except CountEnd Nat :=
  if countsInSql f reader then
    match countEvents table q with
    | .ok n => .ok n
    | .error e => .error (.dbError e)
  else
    match queryEvents table (applyCountFallbackLimit q) with
    | .error e => .error (.dbError e)
    | .ok storedEvents =>
      if countFallbackExceeded storedEvents.length then
        .error (.closed "restricted: count filter requires narrower constraints")
      else .ok (storedEvents.countP (countsRow f reader))

def countFilter (table : List Row) (db : Memberships) (token : Option (List Uuid))
    (community : CommunityId) (reader : String) (accessible : List Uuid) (f : ReqFilter) :
    Except CountEnd (List Uuid × Nat) :=
  let query := withSharedGate f reader (buildEventQueryFromFilter f community)
  match extractChannelFromFilter f with
  | some chId =>
    let known := accessible.contains chId
    if !known && (db.isMember chId).isNone then .error (.closed "error: database error")
    else
      let dbIsMember := if known then none else db.isMember chId
      match resolveRequestLocalAccess accessible chId (tokenAllows token chId) dbIsMember with
      -- A filter for a channel out of reach is skipped.
      | none => .ok (accessible, 0)
      | some repaired => (countWith table f reader query).map fun n => (repaired, n)
  | none =>
    (countWith table f reader { query with channelIds := some accessible }).map fun n =>
      (accessible, n)

def countFilters (table : List Row) (db : Memberships) (token : Option (List Uuid))
    (community : CommunityId) (reader : String) (accessible : List Uuid) (total : Nat) :
    List ReqFilter → Except CountEnd Nat
  | [] => .ok total
  | f :: rest =>
    match countFilter table db token community reader accessible f with
    | .error e => .error e
    | .ok (accessible', n) =>
      countFilters table db token community reader accessible' (total + n) rest

/-- The gates of a `COUNT`, with the text of the one that fails. -/
def countGate (filters : List ReqFilter) (reader : String) : Option String :=
  if !pGatedFiltersAuthorized filters reader then
    some "restricted: p-gated kinds require #p tag matching your pubkey"
  else if !engramFiltersAuthorized filters reader then
    some "restricted: agent-engram reads require authors=[self] or #p=[self]"
  else if !authorOnlyFiltersAuthorized filters reader then
    some "restricted: author-only kinds require authors=[self]"
  else none

def handleCount (filters : List ReqFilter) (conn : Connection) (db : Memberships)
    (table : List Row) : Except CountEnd Nat :=
  match conn.auth with
  | none => .error (.closed "auth-required: not authenticated")
  | some ctx =>
    match countGate filters ctx.pubkey with
    | some text => .error (.closed text)
    | none =>
      match db.accessibleCached with
      | none => .error (.closed "error: database error")
      | some ids =>
        countFilters table db ctx.channelIds conn.community ctx.pubkey
          (narrowToToken ctx.channelIds ids) 0 filters

end Vingilot.Query
