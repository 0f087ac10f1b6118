import Vingilot.Lib.Collections
import Vingilot.Subscription.Filter

/-! # The subscription registry (`buzz-relay/src/subscription.rs`)

One primary table and five indexes. Each index maps a key to the candidate
subscriptions under it. The model runs every call to its end before the next
one; `Race.lean` takes the calls apart into their map operations.
-/

namespace Vingilot.Subscription

abbrev ConnId := Uuid
abbrev SubId := String

structure SubEntry where
  filters : List Filter
  communityId : CommunityId
  channelId : Option Uuid
deriving DecidableEq

structure IndexKey where
  channelId : Uuid
  kind : Kind
deriving DecidableEq

structure GlobalPKindIndexKey where
  communityId : CommunityId
  kind : Kind
  p : String
deriving DecidableEq

structure RemovedSubscription where
  communityId : CommunityId
  channelId : Option Uuid

abbrev Candidates := List (ConnId × SubId)

structure SubscriptionRegistry where
  subs : Table ConnId (Table SubId SubEntry)
  channelKindIndex : Table (CommunityId × IndexKey) Candidates
  channelWildcardIndex : Table (CommunityId × Uuid) Candidates
  globalKindIndex : Table (CommunityId × Kind) Candidates
  globalPKindIndex : Table GlobalPKindIndexKey Candidates
  globalWildcardIndex : Table CommunityId Candidates

def SubscriptionRegistry.new : SubscriptionRegistry := ⟨∅, ∅, ∅, ∅, ∅, ∅⟩

def SubscriptionRegistry.entry (r : SubscriptionRegistry) (conn : ConnId) (sub : SubId) :
    Option SubEntry :=
  (r.subs.get? conn).bind fun connSubs => connSubs.get? sub

/-! ## Buckets: one key of one index -/

inductive Bucket where
  | channelKind (community : CommunityId) (key : IndexKey)
  | channelWildcard (community : CommunityId) (channel : Uuid)
  | globalKind (community : CommunityId) (kind : Kind)
  | globalPKind (key : GlobalPKindIndexKey)
  | globalWildcard (community : CommunityId)
deriving DecidableEq

/-- The bucket's list, or `none` when the index has no such key. -/
def SubscriptionRegistry.bucket (r : SubscriptionRegistry) : Bucket → Option Candidates
  | .channelKind c key => r.channelKindIndex.get? (c, key)
  | .channelWildcard c ch => r.channelWildcardIndex.get? (c, ch)
  | .globalKind c kind => r.globalKindIndex.get? (c, kind)
  | .globalPKind key => r.globalPKindIndex.get? key
  | .globalWildcard c => r.globalWildcardIndex.get? c

def SubscriptionRegistry.alterBucket (r : SubscriptionRegistry) (b : Bucket)
    (f : Option Candidates → Option Candidates) : SubscriptionRegistry :=
  match b with
  | .channelKind c key =>
    { r with channelKindIndex := r.channelKindIndex.alter (c, key) f }
  | .channelWildcard c ch =>
    { r with channelWildcardIndex := r.channelWildcardIndex.alter (c, ch) f }
  | .globalKind c kind => { r with globalKindIndex := r.globalKindIndex.alter (c, kind) f }
  | .globalPKind key => { r with globalPKindIndex := r.globalPKindIndex.alter key f }
  | .globalWildcard c => { r with globalWildcardIndex := r.globalWildcardIndex.alter c f }

def SubscriptionRegistry.push (r : SubscriptionRegistry) (b : Bucket) (x : ConnId × SubId) :
    SubscriptionRegistry :=
  r.alterBucket b fun entries => some (entries.getD [] ++ [x])

/-- `get_mut(key)` and `retain(..)`. An absent key stays absent. -/
def SubscriptionRegistry.retain (r : SubscriptionRegistry) (b : Bucket) (x : ConnId × SubId) :
    SubscriptionRegistry :=
  r.alterBucket b fun entries => entries.map fun l => l.filter fun y => !(y == x)

def SubscriptionRegistry.dropKey (r : SubscriptionRegistry) (b : Bucket) : SubscriptionRegistry :=
  r.alterBucket b fun _ => none

/-- `retain`, and then `remove` when nothing is left under the key. -/
def SubscriptionRegistry.unindex (r : SubscriptionRegistry) (x : ConnId × SubId) (b : Bucket) :
    SubscriptionRegistry :=
  let r' := r.retain b x
  if r'.bucket b = some [] then r'.dropKey b else r'

/-! ## Which keys a subscription is filed under -/

/-- The union of all kinds, or `none` when some filter takes every kind. -/
def extractKindsFromFilters (filters : List Filter) : Option (List Kind) :=
  filters.foldlM (fun kinds f => f.kinds.map fun filterKinds => filterKinds.foldl pushNew kinds) []

/-- The keys of one filter, added to `keys`. `none` when the filter is not fully
`#p`-constrained. -/
def addGlobalPKindKeys (communityId : CommunityId) (keys : List GlobalPKindIndexKey) (f : Filter) :
    Option (List GlobalPKindIndexKey) :=
  match f.kinds with
  | none => none
  | some kinds =>
    if kinds.isEmpty then some keys
    else
      match f.genericTags.lookup 'p' with
      | none => none
      | some pValues =>
        if pValues.isEmpty then none
        else
          some ((kinds.flatMap fun kind => pValues.map fun p =>
            { communityId := communityId, kind := kind, p := p }).foldl pushNew keys)

def extractGlobalPKindIndexKeys (communityId : CommunityId) (filters : List Filter) :
    Option (List GlobalPKindIndexKey) :=
  filters.foldlM (addGlobalPKindKeys communityId) []

/-- The buckets that `register_scoped` pushes to and `remove_from_index` clears. The
two walk the same branches in the source. -/
def bucketsFor (e : SubEntry) : List Bucket :=
  match e.channelId with
  | some chId =>
    match extractKindsFromFilters e.filters with
    | none => [.channelWildcard e.communityId chId]
    -- `kinds: []` matches nothing, so an empty list files the subscription nowhere.
    | some kinds => kinds.map fun kind => .channelKind e.communityId ⟨chId, kind⟩
  | none =>
    match extractGlobalPKindIndexKeys e.communityId e.filters with
    | some keys => keys.map .globalPKind
    | none =>
      match extractKindsFromFilters e.filters with
      | none => [.globalWildcard e.communityId]
      | some kinds => kinds.map fun kind => .globalKind e.communityId kind

/-! ## The calls -/

def removeFromIndex (r : SubscriptionRegistry) (connId : ConnId) (subId : SubId) (e : SubEntry) :
    SubscriptionRegistry :=
  (bucketsFor e).foldl (fun r b => r.unindex (connId, subId) b) r

def removeSubscription (r : SubscriptionRegistry) (connId : ConnId) (subId : SubId) :
    SubscriptionRegistry × Option RemovedSubscription :=
  match r.subs.get? connId with
  | none => (r, none)
  | some connSubs =>
    match connSubs.get? subId with
    | none => (r, none)
    | some e =>
      (removeFromIndex { r with subs := r.subs.set connId (connSubs.remove subId) } connId subId e,
        some ⟨e.communityId, e.channelId⟩)

def registerScoped (r : SubscriptionRegistry) (communityId : CommunityId) (connId : ConnId)
    (subId : SubId) (filters : List Filter) (channelId : Option Uuid) :
    SubscriptionRegistry × Option RemovedSubscription :=
  let (r, removed) := removeSubscription r connId subId
  let e : SubEntry := ⟨filters, communityId, channelId⟩
  let connSubs := (r.subs.get? connId).getD ∅
  let r := { r with subs := r.subs.set connId (connSubs.set subId e) }
  ((bucketsFor e).foldl (fun r b => r.push b (connId, subId)) r, removed)

def removeConnection (r : SubscriptionRegistry) (connId : ConnId) :
    SubscriptionRegistry × List RemovedSubscription :=
  match r.subs.get? connId with
  | none => (r, [])
  | some connSubs =>
    (connSubs.toList.foldl (fun r (subId, e) => removeFromIndex r connId subId e)
        { r with subs := r.subs.remove connId },
      connSubs.toList.map fun (_, e) => ⟨e.communityId, e.channelId⟩)

def channelSubIds (r : SubscriptionRegistry) (communityId : CommunityId) (connId : ConnId)
    (channelId : Uuid) : List SubId :=
  match r.subs.get? connId with
  | none => []
  | some connSubs =>
    connSubs.toList.filterMap fun (subId, e) =>
      if e.communityId = communityId ∧ e.channelId = some channelId then some subId else none

def removeSubscriptions (r : SubscriptionRegistry) (connId : ConnId) :
    List SubId → SubscriptionRegistry × List (SubId × RemovedSubscription)
  | [] => (r, [])
  | subId :: rest =>
    let (r, removed) := removeSubscription r connId subId
    let (r, others) := removeSubscriptions r connId rest
    (r, (removed.map fun x => (subId, x)).toList ++ others)

def removeChannelSubscriptionsScoped (r : SubscriptionRegistry) (communityId : CommunityId)
    (connId : ConnId) (channelId : Uuid) :
    SubscriptionRegistry × List (SubId × RemovedSubscription) :=
  removeSubscriptions r connId (channelSubIds r communityId connId channelId)

/-! ## Fan-out -/

def eventPTagValues (ev : StoredEvent) : List String :=
  (ev.event.tags.filterMap fun t => if t.kind = "p" then t.content else none).foldl pushNew []

/-- What `push_match` asks of a candidate before it delivers to it. -/
def delivers (r : SubscriptionRegistry) (communityId : CommunityId) (ev : StoredEvent)
    (x : ConnId × SubId) : Bool :=
  match r.entry x.1 x.2 with
  | none => false
  | some e =>
    e.communityId == communityId && e.channelId == ev.channelId && filtersMatch e.filters ev

/-- `push_match`. The `seen` set holds exactly the results so far. -/
def pushMatch (r : SubscriptionRegistry) (communityId : CommunityId) (ev : StoredEvent)
    (results : List (ConnId × SubId)) (x : ConnId × SubId) : List (ConnId × SubId) :=
  if delivers r communityId ev x then pushNew results x else results

def fanOutBuckets (communityId : CommunityId) (ev : StoredEvent) : List Bucket :=
  match ev.channelId with
  | some channelId =>
    [.channelKind communityId ⟨channelId, ev.event.kind⟩, .channelWildcard communityId channelId]
  | none =>
    (eventPTagValues ev).map (fun p => .globalPKind ⟨communityId, ev.event.kind, p⟩) ++
      [.globalKind communityId ev.event.kind, .globalWildcard communityId]

def fanOutScoped (r : SubscriptionRegistry) (communityId : CommunityId) (ev : StoredEvent) :
    List (ConnId × SubId) :=
  ((fanOutBuckets communityId ev).flatMap fun b => (r.bucket b).getD []).foldl
    (pushMatch r communityId ev) []

end Vingilot.Subscription
