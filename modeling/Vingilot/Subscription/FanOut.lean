import Vingilot.Subscription.Registry

/-! # Fan-out is the naive scan of the current subscriptions

`Current` is what the registry is for: the entry of each subscription, with no
index. Each call changes it in the obvious way. The registry keeps every current
subscription in all of its buckets, so reading a few buckets finds all matches.
-/

namespace Vingilot.Subscription

/-! ## Bucket operations -/

theorem bucket_alterBucket (r : SubscriptionRegistry) (b b' : Bucket)
    (f : Option Candidates → Option Candidates) :
    (r.alterBucket b f).bucket b' = if b' = b then f (r.bucket b) else r.bucket b' := by
  cases b <;> cases b' <;>
    simp [SubscriptionRegistry.alterBucket, SubscriptionRegistry.bucket, Table.get?_alter]

@[simp]
theorem subs_alterBucket (r : SubscriptionRegistry) (b : Bucket)
    (f : Option Candidates → Option Candidates) : (r.alterBucket b f).subs = r.subs := by
  cases b <;> rfl

/-- The subscription `x` is filed under the bucket `b`. -/
def FiledUnder (r : SubscriptionRegistry) (x : ConnId × SubId) (b : Bucket) : Prop :=
  x ∈ (r.bucket b).getD []

theorem bucket_subs (r : SubscriptionRegistry) (subs : Table ConnId (Table SubId SubEntry))
    (b : Bucket) : ({ r with subs := subs } : SubscriptionRegistry).bucket b = r.bucket b := by
  cases b <;> rfl

theorem filedUnder_subs (r : SubscriptionRegistry) (subs : Table ConnId (Table SubId SubEntry))
    (x : ConnId × SubId) (b : Bucket) :
    FiledUnder { r with subs := subs } x b ↔ FiledUnder r x b := by
  unfold FiledUnder
  rw [bucket_subs]

theorem filedUnder_push (r : SubscriptionRegistry) (b b' : Bucket) (x y : ConnId × SubId) :
    FiledUnder (r.push b x) y b' ↔ FiledUnder r y b' ∨ (b' = b ∧ y = x) := by
  unfold FiledUnder SubscriptionRegistry.push
  rw [bucket_alterBucket]
  split_ifs with h
  · subst h; simp
  · simp [h]

theorem filedUnder_retain (r : SubscriptionRegistry) (b b' : Bucket) (x y : ConnId × SubId) :
    FiledUnder (r.retain b x) y b' ↔ FiledUnder r y b' ∧ (b' = b → y ≠ x) := by
  unfold FiledUnder SubscriptionRegistry.retain
  rw [bucket_alterBucket]
  split_ifs with h
  · subst h
    cases r.bucket b' with
    | none => simp
    | some l => simp
  · simp [h]

theorem filedUnder_dropKey_of_empty (r : SubscriptionRegistry) (b b' : Bucket) (y : ConnId × SubId)
    (hempty : (r.bucket b).getD [] = []) :
    FiledUnder (r.dropKey b) y b' ↔ FiledUnder r y b' := by
  unfold FiledUnder SubscriptionRegistry.dropKey
  rw [bucket_alterBucket]
  split_ifs with h
  · subst h; rw [hempty]; simp
  · exact Iff.rfl

theorem filedUnder_unindex (r : SubscriptionRegistry) (b b' : Bucket) (x y : ConnId × SubId) :
    FiledUnder (r.unindex x b) y b' ↔ FiledUnder r y b' ∧ (b' = b → y ≠ x) := by
  unfold SubscriptionRegistry.unindex
  rw [← filedUnder_retain r b b' x y]
  dsimp only
  split_ifs with h
  · exact filedUnder_dropKey_of_empty _ b b' y (by rw [h]; rfl)
  · exact Iff.rfl

@[simp]
theorem subs_push (r : SubscriptionRegistry) (b : Bucket) (x : ConnId × SubId) :
    (r.push b x).subs = r.subs := subs_alterBucket ..

@[simp]
theorem subs_unindex (r : SubscriptionRegistry) (b : Bucket) (x : ConnId × SubId) :
    (r.unindex x b).subs = r.subs := by
  unfold SubscriptionRegistry.unindex SubscriptionRegistry.retain SubscriptionRegistry.dropKey
  dsimp only
  split_ifs <;> simp

/-! ## The loops over buckets -/

theorem subs_foldl_push (bs : List Bucket) (r : SubscriptionRegistry) (x : ConnId × SubId) :
    (bs.foldl (fun r b => r.push b x) r).subs = r.subs := by
  induction bs generalizing r with
  | nil => rfl
  | cons b bs ih => rw [List.foldl_cons, ih, subs_push]

theorem filedUnder_foldl_push (bs : List Bucket) (r : SubscriptionRegistry)
    (x y : ConnId × SubId) (b' : Bucket) :
    FiledUnder (bs.foldl (fun r b => r.push b x) r) y b' ↔
      FiledUnder r y b' ∨ (b' ∈ bs ∧ y = x) := by
  induction bs generalizing r with
  | nil => simp
  | cons b bs ih =>
    rw [List.foldl_cons, ih, filedUnder_push, List.mem_cons]
    tauto

theorem subs_removeFromIndex (r : SubscriptionRegistry) (connId : ConnId) (subId : SubId)
    (e : SubEntry) : (removeFromIndex r connId subId e).subs = r.subs := by
  unfold removeFromIndex
  generalize bucketsFor e = bs
  induction bs generalizing r with
  | nil => rfl
  | cons b bs ih => rw [List.foldl_cons, ih, subs_unindex]

theorem filedUnder_removeFromIndex (r : SubscriptionRegistry) (connId : ConnId) (subId : SubId)
    (e : SubEntry) (y : ConnId × SubId) (hy : y ≠ (connId, subId)) (b' : Bucket) :
    FiledUnder (removeFromIndex r connId subId e) y b' ↔ FiledUnder r y b' := by
  unfold removeFromIndex
  generalize bucketsFor e = bs
  induction bs generalizing r with
  | nil => rfl
  | cons b bs ih =>
    rw [List.foldl_cons, ih, filedUnder_unindex]
    simp [hy]

/-! ## The current subscriptions -/

abbrev Current := ConnId → SubId → Option SubEntry

inductive Call where
  | registerScoped (communityId : CommunityId) (connId : ConnId) (subId : SubId)
      (filters : List Filter) (channelId : Option Uuid)
  | removeSubscription (connId : ConnId) (subId : SubId)
  | removeConnection (connId : ConnId)
  | removeChannelSubscriptionsScoped (communityId : CommunityId) (connId : ConnId)
      (channelId : Uuid)

def SubscriptionRegistry.apply (r : SubscriptionRegistry) : Call → SubscriptionRegistry
  | .registerScoped communityId connId subId filters channelId =>
    (Subscription.registerScoped r communityId connId subId filters channelId).1
  | .removeSubscription connId subId => (Subscription.removeSubscription r connId subId).1
  | .removeConnection connId => (Subscription.removeConnection r connId).1
  | .removeChannelSubscriptionsScoped communityId connId channelId =>
    (Subscription.removeChannelSubscriptionsScoped r communityId connId channelId).1

def Current.apply (cur : Current) : Call → Current
  | .registerScoped communityId connId subId filters channelId => fun conn sub =>
    if conn = connId ∧ sub = subId then some ⟨filters, communityId, channelId⟩ else cur conn sub
  | .removeSubscription connId subId => fun conn sub =>
    if conn = connId ∧ sub = subId then none else cur conn sub
  | .removeConnection connId => fun conn sub => if conn = connId then none else cur conn sub
  | .removeChannelSubscriptionsScoped communityId connId channelId => fun conn sub =>
    if conn = connId then
      (cur conn sub).filter fun e => !(e.communityId == communityId && e.channelId == some channelId)
    else cur conn sub

def AllFiled (r : SubscriptionRegistry) : Prop :=
  ∀ conn sub e, r.entry conn sub = some e → ∀ b ∈ bucketsFor e, FiledUnder r (conn, sub) b

theorem entry_of_subs_eq {r r' : SubscriptionRegistry} (h : r'.subs = r.subs) (conn : ConnId)
    (sub : SubId) : r'.entry conn sub = r.entry conn sub := by
  simp only [SubscriptionRegistry.entry, h]

/-! ## One call -/

theorem entry_removeSubscription (r : SubscriptionRegistry) (connId : ConnId) (subId : SubId)
    (conn : ConnId) (sub : SubId) :
    (removeSubscription r connId subId).1.entry conn sub =
      if conn = connId ∧ sub = subId then none else r.entry conn sub := by
  unfold removeSubscription
  cases hconn : r.subs.get? connId with
  | none =>
    split_ifs with h
    · obtain ⟨rfl, rfl⟩ := h
      simp [SubscriptionRegistry.entry, hconn]
    · rfl
  | some connSubs =>
    simp only
    cases hsub : connSubs.get? subId with
    | none =>
      split_ifs with h
      · obtain ⟨rfl, rfl⟩ := h
        simp [SubscriptionRegistry.entry, hconn, hsub]
      · rfl
    | some e =>
      simp only
      rw [entry_of_subs_eq (subs_removeFromIndex _ connId subId e)]
      simp only [SubscriptionRegistry.entry, Table.get?_set]
      by_cases hc : conn = connId
      · subst hc
        simp [hconn]
      · simp [hc]

theorem allFiled_removeSubscription (r : SubscriptionRegistry) (connId : ConnId) (subId : SubId)
    (h : AllFiled r) : AllFiled (removeSubscription r connId subId).1 := by
  intro conn sub e he b hb
  rw [entry_removeSubscription] at he
  split_ifs at he with hsame
  have hfiled := h conn sub e he b hb
  have hne : (conn, sub) ≠ (connId, subId) := fun heq => hsame (Prod.mk.injEq .. ▸ heq)
  unfold removeSubscription
  cases r.subs.get? connId with
  | none => exact hfiled
  | some connSubs =>
    simp only
    cases connSubs.get? subId with
    | none => exact hfiled
    | some e' => exact (filedUnder_removeFromIndex _ _ _ _ _ hne b).mpr hfiled

theorem entry_registerScoped (r : SubscriptionRegistry) (communityId : CommunityId)
    (connId : ConnId) (subId : SubId) (filters : List Filter) (channelId : Option Uuid)
    (conn : ConnId) (sub : SubId) :
    (registerScoped r communityId connId subId filters channelId).1.entry conn sub =
      if conn = connId ∧ sub = subId then some ⟨filters, communityId, channelId⟩
      else r.entry conn sub := by
  have hremoved := entry_removeSubscription r connId subId conn sub
  unfold registerScoped
  simp only
  rw [entry_of_subs_eq (subs_foldl_push _ _ _)]
  generalize (removeSubscription r connId subId).1 = r' at hremoved ⊢
  by_cases hc : conn = connId
  · subst hc
    by_cases hs : sub = subId
    · subst hs
      simp [SubscriptionRegistry.entry]
    · simp only [hs, and_false, if_false] at hremoved ⊢
      rw [← hremoved]
      cases hget : r'.subs.get? conn with
      | none => simp [SubscriptionRegistry.entry, hget, hs]
      | some connSubs => simp [SubscriptionRegistry.entry, hget, hs]
  · simp only [hc, false_and, if_false] at hremoved ⊢
    rw [← hremoved]
    simp [SubscriptionRegistry.entry, hc]

theorem allFiled_registerScoped (r : SubscriptionRegistry) (communityId : CommunityId)
    (connId : ConnId) (subId : SubId) (filters : List Filter) (channelId : Option Uuid)
    (h : AllFiled r) :
    AllFiled (registerScoped r communityId connId subId filters channelId).1 := by
  intro conn sub e he b hb
  rw [entry_registerScoped] at he
  unfold registerScoped
  simp only
  rw [filedUnder_foldl_push]
  split_ifs at he with hsame
  · -- The new subscription itself: the loop has just pushed it everywhere.
    obtain ⟨rfl, rfl⟩ := hsame
    cases he
    exact Or.inr ⟨hb, rfl⟩
  · left
    have hne : ¬ (conn = connId ∧ sub = subId) := hsame
    have hafter := allFiled_removeSubscription r connId subId h conn sub e
    rw [entry_removeSubscription, if_neg hne] at hafter
    exact hafter he b hb

theorem entry_foldl_removeFromIndex (l : List (SubId × SubEntry)) (r : SubscriptionRegistry)
    (connId : ConnId) (conn : ConnId) (sub : SubId) :
    (l.foldl (fun r (subId, e) => removeFromIndex r connId subId e) r).entry conn sub =
      r.entry conn sub := by
  induction l generalizing r with
  | nil => rfl
  | cons x l ih => rw [List.foldl_cons, ih, entry_of_subs_eq (subs_removeFromIndex ..)]

theorem filedUnder_foldl_removeFromIndex (l : List (SubId × SubEntry)) (r : SubscriptionRegistry)
    (connId : ConnId) (y : ConnId × SubId) (hy : y.1 ≠ connId) (b : Bucket) :
    FiledUnder (l.foldl (fun r (subId, e) => removeFromIndex r connId subId e) r) y b ↔
      FiledUnder r y b := by
  induction l generalizing r with
  | nil => rfl
  | cons x l ih =>
    rw [List.foldl_cons, ih]
    exact filedUnder_removeFromIndex _ _ _ _ _ (fun h => hy (by rw [h])) b

theorem entry_removeConnection (r : SubscriptionRegistry) (connId : ConnId) (conn : ConnId)
    (sub : SubId) :
    (removeConnection r connId).1.entry conn sub =
      if conn = connId then none else r.entry conn sub := by
  unfold removeConnection
  cases hconn : r.subs.get? connId with
  | none =>
    split_ifs with h
    · subst h; simp [SubscriptionRegistry.entry, hconn]
    · rfl
  | some connSubs =>
    simp only
    rw [entry_foldl_removeFromIndex]
    simp only [SubscriptionRegistry.entry, Table.get?_remove]
    split_ifs <;> rfl

theorem allFiled_removeConnection (r : SubscriptionRegistry) (connId : ConnId) (h : AllFiled r) :
    AllFiled (removeConnection r connId).1 := by
  intro conn sub e he b hb
  rw [entry_removeConnection] at he
  split_ifs at he with hne
  have hfiled := h conn sub e he b hb
  unfold removeConnection
  cases r.subs.get? connId with
  | none => exact hfiled
  | some connSubs => exact (filedUnder_foldl_removeFromIndex _ _ _ _ hne b).mpr hfiled

theorem entry_removeSubscriptions (ids : List SubId) (r : SubscriptionRegistry) (connId : ConnId)
    (conn : ConnId) (sub : SubId) :
    (removeSubscriptions r connId ids).1.entry conn sub =
      if conn = connId ∧ sub ∈ ids then none else r.entry conn sub := by
  induction ids generalizing r with
  | nil => simp [removeSubscriptions]
  | cons id ids ih =>
    rw [removeSubscriptions]
    simp only
    rw [ih, entry_removeSubscription]
    by_cases hc : conn = connId <;> by_cases hs : sub = id <;> by_cases hm : sub ∈ ids <;>
      simp [hc, hs, hm]

theorem allFiled_removeSubscriptions (ids : List SubId) (r : SubscriptionRegistry)
    (connId : ConnId) (h : AllFiled r) : AllFiled (removeSubscriptions r connId ids).1 := by
  induction ids generalizing r with
  | nil => exact h
  | cons id ids ih =>
    rw [removeSubscriptions]
    exact ih _ (allFiled_removeSubscription r connId id h)

theorem mem_channelSubIds (r : SubscriptionRegistry) (communityId : CommunityId)
    (connId : ConnId) (channelId : Uuid) (sub : SubId) :
    sub ∈ channelSubIds r communityId connId channelId ↔
      ∃ e, r.entry connId sub = some e ∧ e.communityId = communityId ∧
        e.channelId = some channelId := by
  unfold channelSubIds
  cases hconn : r.subs.get? connId with
  | none => simp [SubscriptionRegistry.entry, hconn]
  | some connSubs =>
    simp only [SubscriptionRegistry.entry, hconn, Option.bind_some, List.mem_filterMap,
      Prod.exists, Table.mem_toList]
    constructor
    · rintro ⟨s, e, hget, hif⟩
      split_ifs at hif with hcond
      cases hif
      exact ⟨e, hget, hcond⟩
    · rintro ⟨e, hget, hcond⟩
      exact ⟨sub, e, hget, if_pos hcond⟩

theorem entry_removeChannel (r : SubscriptionRegistry) (communityId : CommunityId)
    (connId : ConnId) (channelId : Uuid) (conn : ConnId) (sub : SubId) :
    (removeChannelSubscriptionsScoped r communityId connId channelId).1.entry conn sub =
      if conn = connId then
        (r.entry conn sub).filter fun e =>
          !(e.communityId == communityId && e.channelId == some channelId)
      else r.entry conn sub := by
  unfold removeChannelSubscriptionsScoped
  rw [entry_removeSubscriptions]
  by_cases hc : conn = connId
  · subst hc
    have hmem := mem_channelSubIds r communityId conn channelId sub
    cases hentry : r.entry conn sub with
    | none => simp
    | some e =>
      by_cases hcond : e.communityId = communityId ∧ e.channelId = some channelId
      · have hin := hmem.mpr ⟨e, hentry, hcond⟩
        rw [if_pos ⟨rfl, hin⟩, if_pos rfl, Option.filter_some, if_neg (by simpa using hcond)]
      · have hout : sub ∉ channelSubIds r communityId conn channelId := by
          intro hin
          obtain ⟨e', he', hcond'⟩ := hmem.mp hin
          rw [hentry] at he'
          cases he'
          exact hcond hcond'
        rw [if_neg (fun h => hout h.2), if_pos rfl, Option.filter_some,
          if_pos (by simpa [imp_iff_not_or] using hcond)]
  · simp [hc]

/-! ## Runs of calls -/

theorem entry_apply (r : SubscriptionRegistry) (call : Call) :
    (r.apply call).entry = Current.apply r.entry call := by
  funext conn sub
  cases call with
  | registerScoped => exact entry_registerScoped ..
  | removeSubscription => exact entry_removeSubscription ..
  | removeConnection => exact entry_removeConnection ..
  | removeChannelSubscriptionsScoped => exact entry_removeChannel ..

theorem allFiled_apply (r : SubscriptionRegistry) (call : Call) (h : AllFiled r) :
    AllFiled (r.apply call) := by
  cases call with
  | registerScoped => exact allFiled_registerScoped _ _ _ _ _ _ h
  | removeSubscription => exact allFiled_removeSubscription _ _ _ h
  | removeConnection => exact allFiled_removeConnection _ _ h
  | removeChannelSubscriptionsScoped => exact allFiled_removeSubscriptions _ _ _ h

theorem entry_run (calls : List Call) (r : SubscriptionRegistry) :
    (calls.foldl SubscriptionRegistry.apply r).entry = calls.foldl Current.apply r.entry := by
  induction calls generalizing r with
  | nil => rfl
  | cons call calls ih => rw [List.foldl_cons, List.foldl_cons, ih, entry_apply]

theorem allFiled_run (calls : List Call) (r : SubscriptionRegistry) (h : AllFiled r) :
    AllFiled (calls.foldl SubscriptionRegistry.apply r) := by
  induction calls generalizing r with
  | nil => exact h
  | cons call calls ih => exact ih _ (allFiled_apply r call h)

theorem entry_new : SubscriptionRegistry.new.entry = fun _ _ => none := rfl

theorem allFiled_new : AllFiled SubscriptionRegistry.new := by
  intro conn sub e he
  rw [entry_new] at he
  cases he

/-! ## A matching subscription is filed where fan-out looks -/

theorem extractKinds_covers (filters : List Filter) (acc kinds : List Kind)
    (h : filters.foldlM (fun kinds f => f.kinds.map fun ks => ks.foldl pushNew kinds) acc =
      some kinds) :
    (∀ k ∈ acc, k ∈ kinds) ∧ ∀ f ∈ filters, ∃ ks, f.kinds = some ks ∧ ∀ k ∈ ks, k ∈ kinds := by
  induction filters generalizing acc with
  | nil => cases h; simp
  | cons f fs ih =>
    cases hk : f.kinds with
    | none => simp [hk] at h
    | some ks =>
      simp only [List.foldlM_cons, hk, Option.map_some, Option.bind_eq_bind,
        Option.bind_some] at h
      obtain ⟨hacc, hrest⟩ := ih _ h
      refine ⟨fun k hmem => hacc k ((mem_foldl_pushNew ..).mpr (Or.inl hmem)), ?_⟩
      intro g hg
      rcases List.mem_cons.mp hg with rfl | hg
      · exact ⟨ks, hk, fun k hmem => hacc k ((mem_foldl_pushNew ..).mpr (Or.inr hmem))⟩
      · exact hrest g hg

theorem addGlobalPKindKeys_covers (c : CommunityId) (acc keys : List GlobalPKindIndexKey)
    (f : Filter) (h : addGlobalPKindKeys c acc f = some keys) :
    (∀ key ∈ acc, key ∈ keys) ∧ ∃ ks, f.kinds = some ks ∧
      (ks = [] ∨ ∃ ps, ('p', ps) ∈ f.genericTags ∧ ∀ k ∈ ks, ∀ p ∈ ps, ⟨c, k, p⟩ ∈ keys) := by
  unfold addGlobalPKindKeys at h
  cases hk : f.kinds with
  | none => simp [hk] at h
  | some ks =>
    simp only [hk] at h
    split_ifs at h with hempty
    · cases h
      exact ⟨fun _ hmem => hmem, ks, rfl, Or.inl (by simpa using hempty)⟩
    · cases hp : f.genericTags.lookup 'p' with
      | none => simp [hp] at h
      | some ps =>
        simp only [hp] at h
        split_ifs at h
        cases h
        refine ⟨fun key hmem => (mem_foldl_pushNew ..).mpr (Or.inl hmem), ks, rfl, Or.inr ?_⟩
        obtain ⟨before, after, htags, -⟩ := List.lookup_eq_some_iff.mp hp
        refine ⟨ps, by simp [htags], ?_⟩
        intro k hkmem p hpmem
        apply (mem_foldl_pushNew ..).mpr
        right
        exact List.mem_flatMap.mpr ⟨k, hkmem, List.mem_map.mpr ⟨p, hpmem, rfl⟩⟩

theorem extractGlobalPKind_covers (c : CommunityId) (filters : List Filter)
    (acc keys : List GlobalPKindIndexKey)
    (h : filters.foldlM (addGlobalPKindKeys c) acc = some keys) :
    (∀ key ∈ acc, key ∈ keys) ∧ ∀ f ∈ filters, ∃ ks, f.kinds = some ks ∧
      (ks = [] ∨ ∃ ps, ('p', ps) ∈ f.genericTags ∧ ∀ k ∈ ks, ∀ p ∈ ps, ⟨c, k, p⟩ ∈ keys) := by
  induction filters generalizing acc with
  | nil => cases h; simp
  | cons f fs ih =>
    cases hadd : addGlobalPKindKeys c acc f with
    | none => simp [hadd] at h
    | some mid =>
      simp only [List.foldlM_cons, hadd, Option.bind_eq_bind, Option.bind_some] at h
      obtain ⟨hfirst, ks, hks, hcov⟩ := addGlobalPKindKeys_covers c acc mid f hadd
      obtain ⟨hacc, hrest⟩ := ih mid h
      refine ⟨fun key hmem => hacc key (hfirst key hmem), ?_⟩
      intro g hg
      rcases List.mem_cons.mp hg with rfl | hg
      · refine ⟨ks, hks, hcov.imp id ?_⟩
        rintro ⟨ps, hps, hall⟩
        exact ⟨ps, hps, fun k hk p hp => hacc _ (hall k hk p hp)⟩
      · exact hrest g hg

theorem mem_eventPTagValues (ev : StoredEvent) (t : Tag) (v : String) (ht : t ∈ ev.event.tags)
    (hkind : t.kind = "p") (hcontent : t.content = some v) : v ∈ eventPTagValues ev := by
  unfold eventPTagValues
  apply (mem_foldl_pushNew ..).mpr
  right
  exact List.mem_filterMap.mpr ⟨t, ht, by rw [if_pos hkind, hcontent]⟩

theorem exists_bucket_of_match (e : SubEntry) (ev : StoredEvent) (hch : e.channelId = ev.channelId)
    (h : filtersMatch e.filters ev = true) :
    ∃ b ∈ bucketsFor e, b ∈ fanOutBuckets e.communityId ev := by
  obtain ⟨f, hf, hmatch⟩ := List.any_eq_true.mp h
  unfold bucketsFor fanOutBuckets
  rw [← hch]
  cases e.channelId with
  | some chId =>
    simp only
    cases hk : extractKindsFromFilters e.filters with
    | none => exact ⟨_, List.mem_singleton.mpr rfl, by simp⟩
    | some kinds =>
      obtain ⟨ks, hks, hcov⟩ := (extractKinds_covers _ _ _ hk).2 f hf
      have hkind := hcov _ (kind_mem_of_match f ev ks hks hmatch)
      exact ⟨_, List.mem_map.mpr ⟨_, hkind, rfl⟩, by simp⟩
  | none =>
    simp only
    cases hp : extractGlobalPKindIndexKeys e.communityId e.filters with
    | some keys =>
      obtain ⟨ks, hks, hcov⟩ := (extractGlobalPKind_covers _ _ _ _ hp).2 f hf
      have hkind := kind_mem_of_match f ev ks hks hmatch
      rcases hcov with rfl | ⟨ps, hps, hall⟩
      · cases hkind
      · obtain ⟨v, hv, t, ht, htk, htc⟩ := p_tag_of_match f ev ps hps hmatch
        have hpv := mem_eventPTagValues ev t v ht htk htc
        refine ⟨_, List.mem_map.mpr ⟨_, hall _ hkind v hv, rfl⟩, ?_⟩
        exact List.mem_append_left _ (List.mem_map.mpr ⟨v, hpv, rfl⟩)
    | none =>
      cases hk : extractKindsFromFilters e.filters with
      | none => exact ⟨_, List.mem_singleton.mpr rfl, by simp⟩
      | some kinds =>
        obtain ⟨ks, hks, hcov⟩ := (extractKinds_covers _ _ _ hk).2 f hf
        have hkind := hcov _ (kind_mem_of_match f ev ks hks hmatch)
        exact ⟨_, List.mem_map.mpr ⟨_, hkind, rfl⟩, by simp⟩

/-! ## Fan-out -/

theorem mem_foldl_pushMatch (r : SubscriptionRegistry) (c : CommunityId) (ev : StoredEvent)
    (cands acc : List (ConnId × SubId)) (x : ConnId × SubId) :
    x ∈ cands.foldl (pushMatch r c ev) acc ↔
      x ∈ acc ∨ (x ∈ cands ∧ delivers r c ev x = true) := by
  induction cands generalizing acc with
  | nil => simp
  | cons y ys ih =>
    rw [List.foldl_cons, ih, List.mem_cons]
    unfold pushMatch
    split_ifs with hy
    · rw [mem_pushNew]
      constructor
      · rintro ((h | rfl) | h)
        · exact Or.inl h
        · exact Or.inr ⟨Or.inl rfl, hy⟩
        · exact Or.inr ⟨Or.inr h.1, h.2⟩
      · rintro (h | ⟨rfl | h, hd⟩)
        · exact Or.inl (Or.inl h)
        · exact Or.inl (Or.inr rfl)
        · exact Or.inr ⟨h, hd⟩
    · constructor
      · rintro (h | h)
        · exact Or.inl h
        · exact Or.inr ⟨Or.inr h.1, h.2⟩
      · rintro (h | ⟨rfl | h, hd⟩)
        · exact Or.inl h
        · exact absurd hd hy
        · exact Or.inr ⟨h, hd⟩

theorem nodup_foldl_pushMatch (r : SubscriptionRegistry) (c : CommunityId) (ev : StoredEvent)
    (cands acc : List (ConnId × SubId)) (h : acc.Nodup) :
    (cands.foldl (pushMatch r c ev) acc).Nodup := by
  induction cands generalizing acc with
  | nil => exact h
  | cons y ys ih =>
    rw [List.foldl_cons]
    apply ih
    unfold pushMatch
    split_ifs
    · exact nodup_pushNew y h
    · exact h

theorem nodup_fanOutScoped (r : SubscriptionRegistry) (c : CommunityId) (ev : StoredEvent) :
    (fanOutScoped r c ev).Nodup := nodup_foldl_pushMatch _ _ _ _ _ List.nodup_nil

theorem mem_fanOutScoped (r : SubscriptionRegistry) (c : CommunityId) (ev : StoredEvent)
    (x : ConnId × SubId) :
    x ∈ fanOutScoped r c ev ↔
      (∃ b ∈ fanOutBuckets c ev, FiledUnder r x b) ∧ delivers r c ev x = true := by
  unfold fanOutScoped FiledUnder
  rw [mem_foldl_pushMatch, List.mem_flatMap]
  simp

theorem delivers_iff (r : SubscriptionRegistry) (c : CommunityId) (ev : StoredEvent)
    (conn : ConnId) (sub : SubId) :
    delivers r c ev (conn, sub) = true ↔
      ∃ e, r.entry conn sub = some e ∧ e.communityId = c ∧ e.channelId = ev.channelId ∧
        filtersMatch e.filters ev = true := by
  unfold delivers
  cases r.entry conn sub with
  | none => simp
  | some e => simp [and_assoc]

theorem mem_fanOut_of_filed (r : SubscriptionRegistry) (ev : StoredEvent) (conn : ConnId)
    (sub : SubId) (e : SubEntry) (hentry : r.entry conn sub = some e)
    (hfiled : ∀ b ∈ bucketsFor e, FiledUnder r (conn, sub) b) (hch : e.channelId = ev.channelId)
    (hmatch : filtersMatch e.filters ev = true) :
    (conn, sub) ∈ fanOutScoped r e.communityId ev := by
  obtain ⟨b, hb, hread⟩ := exists_bucket_of_match e ev hch hmatch
  apply (mem_fanOutScoped ..).mpr
  exact ⟨⟨b, hread, hfiled b hb⟩, (delivers_iff ..).mpr ⟨e, hentry, rfl, hch, hmatch⟩⟩

/-- After any calls, fan-out returns each matching current subscription exactly once, and
nothing else. -/
theorem fan_out_scoped_eq_scan (calls : List Call) (c : CommunityId) (ev : StoredEvent) :
    let r := calls.foldl SubscriptionRegistry.apply .new
    let cur : Current := calls.foldl Current.apply fun _ _ => none
    (fanOutScoped r c ev).Nodup ∧
      ∀ conn sub, (conn, sub) ∈ fanOutScoped r c ev ↔
        ∃ e, cur conn sub = some e ∧ e.communityId = c ∧ e.channelId = ev.channelId ∧
          filtersMatch e.filters ev = true := by
  intro r cur
  have hcur : r.entry = cur := entry_run calls .new
  have hfiled : AllFiled r := allFiled_run calls .new allFiled_new
  refine ⟨nodup_fanOutScoped r c ev, ?_⟩
  intro conn sub
  rw [← hcur]
  constructor
  · intro h
    exact (delivers_iff ..).mp ((mem_fanOutScoped ..).mp h).2
  · rintro ⟨e, he, rfl, hch, hmatch⟩
    exact mem_fanOut_of_filed r ev conn sub e he (hfiled conn sub e he) hch hmatch

end Vingilot.Subscription
