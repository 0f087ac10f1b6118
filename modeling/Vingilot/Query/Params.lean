import Vingilot.Query.Events
import Vingilot.Subscription.Filter

/-! # From filters to queries (`buzz-relay/src/handlers/req.rs`)

One query for each filter. A reader is known by the hex text of its public key.
-/

namespace Vingilot.Query

open Workflow (fromTimestamp asI64)

def hexValue (c : Char) : Option Nat :=
  if '0' ≤ c ∧ c ≤ '9' then some (c.toNat - '0'.toNat)
  else if 'a' ≤ c ∧ c ≤ 'f' then some (c.toNat - 'a'.toNat + 10)
  else if 'A' ≤ c ∧ c ≤ 'F' then some (c.toNat - 'A'.toNat + 10)
  else none

def parseSimple (digits : List Char) : Option Uuid :=
  (digits.foldlM (fun acc c => (hexValue c).map fun v => acc * 16 + v) 0).map (BitVec.ofNat 128)

def parseHyphenated (s : List Char) : Option Uuid :=
  if s[8]? = some '-' ∧ s[13]? = some '-' ∧ s[18]? = some '-' ∧ s[23]? = some '-' then
    let group (start len : Nat) := (s.drop start).take len
    parseSimple (group 0 8 ++ group 9 4 ++ group 14 4 ++ group 19 4 ++ group 24 12)
  else none

/-- `str::parse::<Uuid>`: the simple, hyphenated, braced and URN forms. -/
def parseUuid (text : String) : Option Uuid :=
  let s := text.toList
  if s.length = 32 then parseSimple s
  else if s.length = 36 then parseHyphenated s
  else if s.length = 38 ∧ s.head? = some '\x7b' ∧ s.getLast? = some '\x7d' then
    parseHyphenated ((s.drop 1).take 36)
  else if s.length = 45 ∧ s.take 9 = "urn:uuid:".toList then parseHyphenated (s.drop 9)
  else none

/-- A filter as a client sends it. Its ids are whole event ids, and a tag letter has one set
of values. -/
structure ReqFilter extends Filter where
  limit : Option Nat
  search : Option String
  id_length : ∀ ids, toFilter.ids = some ids → ∀ id ∈ ids, id.length = 64
  keys_nodup : (toFilter.genericTags.map Prod.fst).Nodup

def ReqFilter.tagValues (f : ReqFilter) (tag : Char) : Option (List String) :=
  f.genericTags.lookup tag

/-! ## Channels -/

def ReqFilter.channels (f : ReqFilter) : List Uuid :=
  f.genericTags.flatMap fun (key, values) =>
    if key = 'h' then values.filterMap parseUuid else []

def extractChannelIdFromFilter (f : ReqFilter) : Option Uuid := f.channels.head?

/-- The channel of a filter with exactly one `#h` value. -/
def singleChannel (f : ReqFilter) : Option Uuid :=
  (f.tagValues 'h').bind fun values => if values.length = 1 then values.head?.bind parseUuid else none

/-- One `#h` value of `extract_channel_id_from_filters`. `none` is its return on a second
channel. -/
def noteChannel (found : Option Uuid) (id : Uuid) : Option (Option Uuid) :=
  match found with
  | some existing => if existing ≠ id then none else some (some id)
  | none => some (some id)

def extractChannelIdFrom (found : Option Uuid) : List ReqFilter → Option Uuid
  | [] => found
  | f :: rest =>
    match f.channels.foldlM noteChannel found with
    | none => none
    | some found' => if f.channels.isEmpty then none else extractChannelIdFrom found' rest

def extractChannelIdFromFilters (filters : List ReqFilter) : Option Uuid :=
  extractChannelIdFrom none filters

/-! ## Query parameters -/

def ReqFilter.nip33Only (f : ReqFilter) : Bool :=
  match f.kinds with
  | some kinds => !kinds.isEmpty && kinds.all isParameterizedReplaceable
  | none => false

def onlyValue (values : Option (List String)) : Option String :=
  values.bind fun vs => if vs.length = 1 then vs.head? else none

def nonemptyValues (values : Option (List String)) : Option (List String) :=
  values.bind fun vs => if vs.isEmpty then none else some vs

def severalValues (values : Option (List String)) : Option (List String) :=
  values.bind fun vs => if 1 < vs.length then some vs else none

def filterToQueryParams (f : ReqFilter) (channelId : Option Uuid) (community : CommunityId) :
    EventQuery :=
  let dValues := if f.nip33Only then f.tagValues 'd' else none
  { EventQuery.forCommunity community with
    channelId := channelId
    kinds := f.kinds
    pubkey := onlyValue f.authors
    since := f.since.bind fun s => fromTimestamp (asI64 s)
    until_ := f.until_.bind fun u => fromTimestamp (asI64 u)
    limit := some ((f.limit.map fun l => min (asI64 l) defaultMaxPageLimit).getD defaultMaxPageLimit)
    pTagHex := onlyValue (f.tagValues 'p')
    dTag := onlyValue dValues
    dTags := severalValues dValues
    authors := severalValues f.authors
    ids := nonemptyValues f.ids
    eTags := nonemptyValues (f.tagValues 'e') }

def applyAccessScopeToQuery (q : EventQuery) (channelId : Option Uuid) (accessible : List Uuid) :
    EventQuery :=
  match channelId with
  | some _ => q
  | none => { q with channelIds := some accessible }

/-- The filter's own single channel, or else the one of the whole `REQ`. -/
def perFilterChannel (f : ReqFilter) (channelId : Option Uuid) : Option Uuid :=
  (singleChannel f).or channelId

def historicalQuery (f : ReqFilter) (channelId : Option Uuid) (community : CommunityId)
    (accessible : List Uuid) : EventQuery :=
  let channel := perFilterChannel f channelId
  applyAccessScopeToQuery (filterToQueryParams f channel community) channel accessible

/-! ## Read gates of events (`buzz-core/src/kind.rs`, `filter.rs`) -/

def authorOnlyKinds : List Kind := [30300, 30350, 30179]

def resultGatedKinds : List Kind := [30622, 44200]

def pGatedKinds : List Kind := [24200, 44100, 44101, 1059, 30622, 44200]

def kindAgentEngram : Kind := 30174

def isAuthorOnlyEvent (event : Event) (reader : String) : Bool :=
  authorOnlyKinds.contains event.kind && event.pubkey != reader

/-- Exactly one tag `["shared", "true"]`, and no other `shared` tag. -/
def eventIsShared (event : Event) : Bool :=
  let shared := event.tags.filter fun t => t.kind == "shared"
  shared.all (fun t => t.values == ["true"]) && shared.length == 1

def isUnsharedGatedEvent (event : Event) (reader : String) : Bool :=
  sharedGatedKinds.contains event.kind && event.pubkey != reader && !eventIsShared event

def readerAuthorizedForEvent (event : Event) (reader : String) : Bool :=
  if resultGatedKinds.contains event.kind then
    event.tags.any fun t => t.kind == "p" && t.content == some reader
  else true

def eventVisibleToReader (event : Event) (reader : String) : Bool :=
  !isAuthorOnlyEvent event reader && !isUnsharedGatedEvent event reader &&
    readerAuthorizedForEvent event reader

/-! ## Read gates of filters -/

def canMatchKinds (gated : List Kind) (f : ReqFilter) : Bool :=
  match f.kinds with
  | some kinds => kinds.any gated.contains
  | none => true

def filterCanMatchAuthorOnlyKinds (f : ReqFilter) : Bool := canMatchKinds authorOnlyKinds f

def filterCanMatchSharedGatedKinds (f : ReqFilter) : Bool := canMatchKinds sharedGatedKinds f

def filterCanMatchResultGatedKinds (f : ReqFilter) : Bool := canMatchKinds resultGatedKinds f

def onlySelf (values : Option (List String)) (reader : String) : Bool :=
  match values with
  | some vs => !vs.isEmpty && vs.all fun v => v == reader
  | none => false

/-- `result_gated_count_safe_for_pushdown`. -/
def resultGatedCountSafeForPushdown (f : ReqFilter) (reader : String) : Bool :=
  onlySelf (f.tagValues 'p') reader

def ReqFilter.hasIds (f : ReqFilter) : Bool :=
  match f.ids with
  | some ids => !ids.isEmpty
  | none => false

def pGatedFiltersAuthorized (filters : List ReqFilter) (reader : String) : Bool :=
  filters.all fun f =>
    if !canMatchKinds pGatedKinds f then true
    else
      let explicitlyNoIdsExemption :=
        match f.kinds with
        | some kinds => kinds.any resultGatedKinds.contains
        | none => false
      if !explicitlyNoIdsExemption && f.hasIds then true else onlySelf (f.tagValues 'p') reader

def engramFiltersAuthorized (filters : List ReqFilter) (reader : String) : Bool :=
  filters.all fun f =>
    if f.hasIds then true
    else if !canMatchKinds [kindAgentEngram] f then true
    else if onlySelf f.authors reader then true
    else onlySelf (f.tagValues 'p') reader

def authorOnlyFiltersAuthorized (filters : List ReqFilter) (reader : String) : Bool :=
  filters.all fun f =>
    let targetsOnlyAuthorOnly :=
      match f.kinds with
      | some kinds => !kinds.isEmpty && kinds.all authorOnlyKinds.contains
      | none => false
    if !targetsOnlyAuthorOnly then true else onlySelf f.authors reader

end Vingilot.Query
