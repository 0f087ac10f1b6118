import Vingilot.Subscription.FanOut

/-!
# Which connections an eviction sees

`channel_subscriber_conns_scoped` reads the indexes, and the indexes hold exactly the current
subscriptions, each under its buckets. A subscription whose filters name no kind has no bucket.
-/

namespace Vingilot.Subscription

/-! ## The call -/

/-- `conns.extend(..)` on a hash set. -/
def addConns (conns : List ConnId) (entries : Candidates) : List ConnId :=
  (entries.map Prod.fst).foldl pushNew conns

def channelSubscriberConnsScoped (r : SubscriptionRegistry) (communityId : CommunityId)
    (channelId : Uuid) : List ConnId :=
  let conns := r.channelKindIndex.toList.foldl (fun conns entry =>
    if entry.1.1 = communityId ∧ entry.1.2.channelId = channelId then addConns conns entry.2
    else conns) []
  match r.channelWildcardIndex.get? (communityId, channelId) with
  | some entries => addConns conns entries
  | none => conns

variable {conns : List ConnId} {conn : ConnId}

theorem mem_addConns {entries : Candidates} :
    conn ∈ addConns conns entries ↔ conn ∈ conns ∨ ∃ sub, (conn, sub) ∈ entries := by
  rw [addConns, mem_foldl_pushNew, List.mem_map]
  simp

theorem nodup_addConns (h : conns.Nodup) (entries : Candidates) :
    (addConns conns entries).Nodup := by
  unfold addConns
  induction entries generalizing conns with
  | nil => exact h
  | cons x entries ih => exact ih (nodup_pushNew x.1 h)

section KindIndex

variable (l : List ((CommunityId × IndexKey) × Candidates)) (c : CommunityId) (ch : Uuid)

def addKindConns (conns : List ConnId) : List ConnId :=
  l.foldl (fun conns entry =>
    if entry.1.1 = c ∧ entry.1.2.channelId = ch then addConns conns entry.2 else conns) conns

theorem mem_addKindConns (conns : List ConnId) (conn : ConnId) :
    conn ∈ addKindConns l c ch conns ↔ conn ∈ conns ∨
      ∃ kind entries, ((c, ⟨ch, kind⟩), entries) ∈ l ∧ ∃ sub, (conn, sub) ∈ entries := by
  unfold addKindConns
  induction l generalizing conns with
  | nil => simp
  | cons entry l ih =>
    obtain ⟨⟨c', ch', kind⟩, entries⟩ := entry
    rw [List.foldl_cons, ih]
    dsimp only
    by_cases hkey : c' = c ∧ ch' = ch
    · obtain ⟨rfl, rfl⟩ := hkey
      rw [if_pos ⟨rfl, rfl⟩, mem_addConns, or_assoc]
      refine or_congr_right ⟨?_, ?_⟩
      · rintro (hsub | ⟨k, es, hmem, hsub⟩)
        · exact ⟨kind, entries, List.mem_cons_self, hsub⟩
        · exact ⟨k, es, List.mem_cons_of_mem _ hmem, hsub⟩
      · rintro ⟨k, es, hmem, hsub⟩
        rcases List.mem_cons.mp hmem with heq | hmem
        · cases heq
          exact .inl hsub
        · exact .inr ⟨k, es, hmem, hsub⟩
    · rw [if_neg hkey]
      refine or_congr_right ⟨?_, ?_⟩
      · rintro ⟨k, es, hmem, hsub⟩
        exact ⟨k, es, List.mem_cons_of_mem _ hmem, hsub⟩
      · rintro ⟨k, es, hmem, hsub⟩
        rcases List.mem_cons.mp hmem with heq | hmem
        · cases heq
          exact absurd ⟨rfl, rfl⟩ hkey
        · exact ⟨k, es, hmem, hsub⟩

theorem nodup_addKindConns (h : conns.Nodup) : (addKindConns l c ch conns).Nodup := by
  unfold addKindConns
  induction l generalizing conns with
  | nil => exact h
  | cons entry l ih =>
    rw [List.foldl_cons]
    refine ih ?_
    split_ifs
    · exact nodup_addConns h entry.2
    · exact h

end KindIndex

def Bucket.channel? : Bucket → Option (CommunityId × Uuid)
  | .channelKind c key => some (c, key.channelId)
  | .channelWildcard c ch => some (c, ch)
  | .globalKind .. | .globalPKind _ | .globalWildcard _ => none

theorem nodup_channelSubscriberConns (r : SubscriptionRegistry) (c : CommunityId) (ch : Uuid) :
    (channelSubscriberConnsScoped r c ch).Nodup := by
  have hkinds := nodup_addKindConns r.channelKindIndex.toList c ch List.nodup_nil
  unfold channelSubscriberConnsScoped
  dsimp only
  cases r.channelWildcardIndex.get? (c, ch) with
  | none => exact hkinds
  | some entries => exact nodup_addConns hkinds entries

variable {r : SubscriptionRegistry}

theorem mem_channelSubscriberConns {c : CommunityId} {ch : Uuid} :
    conn ∈ channelSubscriberConnsScoped r c ch ↔
      ∃ sub b, FiledUnder r (conn, sub) b ∧ b.channel? = some (c, ch) := by
  have hkinds := mem_addKindConns r.channelKindIndex.toList c ch [] conn
  have hsplit : conn ∈ channelSubscriberConnsScoped r c ch ↔
      conn ∈ addKindConns r.channelKindIndex.toList c ch [] ∨
        ∃ sub, FiledUnder r (conn, sub) (.channelWildcard c ch) := by
    unfold channelSubscriberConnsScoped FiledUnder
    simp only [SubscriptionRegistry.bucket]
    cases r.channelWildcardIndex.get? (c, ch) with
    | none => simp [addKindConns]
    | some entries => exact mem_addConns
  rw [hsplit, hkinds]
  constructor
  · rintro ((hnil | ⟨kind, entries, hmem, sub, hsub⟩) | ⟨sub, hfiled⟩)
    · cases hnil
    · refine ⟨sub, .channelKind c ⟨ch, kind⟩, ?_, rfl⟩
      rw [FiledUnder, SubscriptionRegistry.bucket, (Table.mem_toList ..).mp hmem]
      exact hsub
    · exact ⟨sub, _, hfiled, rfl⟩
  · rintro ⟨sub, b, hfiled, hchannel⟩
    cases b with
    | channelKind c' key =>
      cases hchannel
      obtain ⟨entries, hget, hsub⟩ : ∃ entries, r.channelKindIndex.get? (c, key) = some entries ∧
          (conn, sub) ∈ entries := by
        rw [FiledUnder, SubscriptionRegistry.bucket] at hfiled
        cases hget : r.channelKindIndex.get? (c, key) with
        | none =>
          rw [hget] at hfiled
          cases hfiled
        | some entries =>
          rw [hget] at hfiled
          exact ⟨entries, rfl, hfiled⟩
      exact .inl (.inr ⟨key.kind, entries, (Table.mem_toList ..).mpr hget, sub, hsub⟩)
    | channelWildcard c' ch' =>
      cases hchannel
      exact .inr ⟨sub, hfiled⟩
    | globalKind => cases hchannel
    | globalPKind => cases hchannel
    | globalWildcard => cases hchannel

/-! ## Nothing stale is filed -/

def NoneStale (r : SubscriptionRegistry) : Prop :=
  ∀ conn sub b, FiledUnder r (conn, sub) b →
    ∃ e, r.entry conn sub = some e ∧ b ∈ bucketsFor e

theorem filedUnder_removeFromIndex_iff (r : SubscriptionRegistry) (connId : ConnId)
    (subId : SubId) (e : SubEntry) (y : ConnId × SubId) (b : Bucket) :
    FiledUnder (removeFromIndex r connId subId e) y b ↔
      FiledUnder r y b ∧ (b ∈ bucketsFor e → y ≠ (connId, subId)) := by
  unfold removeFromIndex
  generalize bucketsFor e = bs
  induction bs generalizing r with
  | nil => simp
  | cons b₁ bs ih =>
    rw [List.foldl_cons, ih, filedUnder_unindex, List.mem_cons]
    tauto

theorem filedUnder_removeAll_iff (l : List (SubId × SubEntry)) (r : SubscriptionRegistry)
    (connId : ConnId) (y : ConnId × SubId) (b : Bucket) :
    FiledUnder (l.foldl (fun r (subId, e) => removeFromIndex r connId subId e) r) y b ↔
      FiledUnder r y b ∧ ∀ x ∈ l, b ∈ bucketsFor x.2 → y ≠ (connId, x.1) := by
  induction l generalizing r with
  | nil => simp
  | cons x l ih =>
    rw [List.foldl_cons, ih, filedUnder_removeFromIndex_iff, List.forall_mem_cons, and_assoc]

theorem filedUnder_removeSubscription (h : NoneStale r) (connId : ConnId) (subId : SubId)
    (y : ConnId × SubId) (b : Bucket) : FiledUnder (removeSubscription r connId subId).1 y b ↔
      FiledUnder r y b ∧ y ≠ (connId, subId) := by
  -- Where there is no entry, nothing is filed.
  have hnone : r.entry connId subId = none → FiledUnder r y b → y ≠ (connId, subId) := by
    rintro hentry hfiled rfl
    obtain ⟨e, he, -⟩ := h connId subId b hfiled
    rw [hentry] at he
    cases he
  unfold removeSubscription
  cases hconn : r.subs.get? connId with
  | none =>
    have hentry : r.entry connId subId = none := by
      rw [SubscriptionRegistry.entry, hconn]
      rfl
    exact ⟨fun hfiled => ⟨hfiled, hnone hentry hfiled⟩, And.left⟩
  | some connSubs =>
    dsimp only
    cases hsub : connSubs.get? subId with
    | none =>
      have hentry : r.entry connId subId = none := by
        rw [SubscriptionRegistry.entry, hconn]
        exact hsub
      exact ⟨fun hfiled => ⟨hfiled, hnone hentry hfiled⟩, And.left⟩
    | some e =>
      have hentry : r.entry connId subId = some e := by
        rw [SubscriptionRegistry.entry, hconn]
        exact hsub
      dsimp only
      rw [filedUnder_removeFromIndex_iff, filedUnder_subs]
      refine and_congr_right fun hfiled => ⟨?_, fun hne _ => hne⟩
      rintro hne rfl
      obtain ⟨e', he', hb⟩ := h connId subId b hfiled
      rw [hentry] at he'
      cases he'
      exact hne hb rfl

theorem noneStale_removeSubscription (h : NoneStale r) (connId : ConnId) (subId : SubId) :
    NoneStale (removeSubscription r connId subId).1 := by
  intro conn sub b hfiled
  obtain ⟨hold, hne⟩ := (filedUnder_removeSubscription h connId subId _ b).mp hfiled
  rw [entry_removeSubscription, if_neg fun hsame => hne (by rw [hsame.1, hsame.2])]
  exact h conn sub b hold

theorem noneStale_registerScoped (h : NoneStale r) (communityId : CommunityId) (connId : ConnId)
    (subId : SubId) (filters : List Filter) (channelId : Option Uuid) :
    NoneStale (registerScoped r communityId connId subId filters channelId).1 := by
  intro conn sub b hfiled
  rw [entry_registerScoped]
  unfold registerScoped at hfiled
  dsimp only at hfiled
  rw [filedUnder_foldl_push, filedUnder_subs, filedUnder_removeSubscription h] at hfiled
  rcases hfiled with ⟨hold, hne⟩ | ⟨hb, hsame⟩
  · rw [if_neg fun hsame => hne (by rw [hsame.1, hsame.2])]
    exact h conn sub b hold
  · rw [if_pos (Prod.mk.inj hsame)]
    exact ⟨_, rfl, hb⟩

theorem noneStale_removeConnection (h : NoneStale r) (connId : ConnId) :
    NoneStale (removeConnection r connId).1 := by
  intro conn sub b hfiled
  rw [entry_removeConnection]
  unfold removeConnection at hfiled
  cases hconn : r.subs.get? connId with
  | none =>
    rw [hconn] at hfiled
    obtain ⟨e, he, hb⟩ := h conn sub b hfiled
    rw [if_neg, he]
    · exact ⟨e, rfl, hb⟩
    · rintro rfl
      rw [SubscriptionRegistry.entry, hconn] at he
      cases he
  | some connSubs =>
    rw [hconn] at hfiled
    obtain ⟨hold, hother⟩ := (filedUnder_removeAll_iff ..).mp hfiled
    obtain ⟨e, he, hb⟩ := h conn sub b ((filedUnder_subs ..).mp hold)
    rw [if_neg, he]
    · exact ⟨e, rfl, hb⟩
    · rintro rfl
      rw [SubscriptionRegistry.entry, hconn] at he
      exact hother (sub, e) ((Table.mem_toList ..).mpr he) hb rfl

theorem noneStale_removeSubscriptions (h : NoneStale r) (connId : ConnId) (ids : List SubId) :
    NoneStale (removeSubscriptions r connId ids).1 := by
  induction ids generalizing r with
  | nil => exact h
  | cons id ids ih =>
    rw [removeSubscriptions]
    exact ih (noneStale_removeSubscription h connId id)

theorem noneStale_apply (h : NoneStale r) (call : Call) : NoneStale (r.apply call) := by
  cases call with
  | registerScoped => exact noneStale_registerScoped h _ _ _ _ _
  | removeSubscription => exact noneStale_removeSubscription h _ _
  | removeConnection => exact noneStale_removeConnection h _
  | removeChannelSubscriptionsScoped => exact noneStale_removeSubscriptions h _ _

theorem noneStale_run (calls : List Call) (h : NoneStale r) :
    NoneStale (calls.foldl SubscriptionRegistry.apply r) := by
  induction calls generalizing r with
  | nil => exact h
  | cons call calls ih => exact ih (noneStale_apply h call)

theorem noneStale_new : NoneStale .new := by
  intro conn sub b hfiled
  cases b <;> cases hfiled

/-! ## Which subscriptions have a bucket -/

def TakesSomeKind (filters : List Filter) : Prop := ∃ f ∈ filters, f.kinds ≠ some []

theorem foldl_pushNew_eq_nil {acc ks : List Kind} :
    ks.foldl pushNew acc = [] ↔ acc = [] ∧ ks = [] := by
  simp only [List.eq_nil_iff_forall_not_mem, mem_foldl_pushNew, not_or, forall_and]

theorem extractKinds_eq_nil {filters : List Filter} {acc : List Kind} :
    filters.foldlM (fun kinds f => f.kinds.map fun ks => ks.foldl pushNew kinds) acc = some [] ↔
      acc = [] ∧ ∀ f ∈ filters, f.kinds = some [] := by
  induction filters generalizing acc with
  | nil => simp
  | cons f fs ih =>
    rw [List.foldlM_cons, List.forall_mem_cons]
    cases hk : f.kinds with
    | none => simp
    | some ks =>
      simp only [Option.map_some, Option.bind_eq_bind, Option.bind_some]
      rw [ih, foldl_pushNew_eq_nil, Option.some_inj, and_assoc]

theorem takesSomeKind_iff {filters : List Filter} :
    TakesSomeKind filters ↔ extractKindsFromFilters filters ≠ some [] := by
  rw [extractKindsFromFilters, Ne, extractKinds_eq_nil]
  simp [TakesSomeKind]

theorem channel_of_mem_bucketsFor {e : SubEntry} {b : Bucket} {c : CommunityId} {ch : Uuid}
    (hb : b ∈ bucketsFor e) (hchannel : b.channel? = some (c, ch)) :
    e.communityId = c ∧ e.channelId = some ch := by
  unfold bucketsFor at hb
  cases hscope : e.channelId with
  | some chId =>
    rw [hscope] at hb
    dsimp only at hb
    cases hk : extractKindsFromFilters e.filters with
    | none =>
      rw [hk] at hb
      cases List.mem_singleton.mp hb
      cases hchannel
      exact ⟨rfl, rfl⟩
    | some kinds =>
      rw [hk] at hb
      obtain ⟨kind, -, rfl⟩ := List.mem_map.mp hb
      cases hchannel
      exact ⟨rfl, rfl⟩
  | none =>
    rw [hscope] at hb
    dsimp only at hb
    cases hp : extractGlobalPKindIndexKeys e.communityId e.filters with
    | some keys =>
      rw [hp] at hb
      obtain ⟨key, -, rfl⟩ := List.mem_map.mp hb
      cases hchannel
    | none =>
      rw [hp] at hb
      dsimp only at hb
      cases hk : extractKindsFromFilters e.filters with
      | none =>
        rw [hk] at hb
        cases List.mem_singleton.mp hb
        cases hchannel
      | some kinds =>
        rw [hk] at hb
        obtain ⟨kind, -, rfl⟩ := List.mem_map.mp hb
        cases hchannel

theorem exists_bucket_iff {e : SubEntry} {ch : Uuid} (h : e.channelId = some ch) :
    (∃ b ∈ bucketsFor e, b.channel? = some (e.communityId, ch)) ↔ TakesSomeKind e.filters := by
  rw [takesSomeKind_iff]
  unfold bucketsFor
  rw [h]
  dsimp only
  cases extractKindsFromFilters e.filters with
  | none => exact ⟨fun _ => by simp, fun _ => ⟨_, List.mem_singleton.mpr rfl, rfl⟩⟩
  | some kinds =>
    cases kinds with
    | nil => simp
    | cons kind kinds =>
      exact ⟨fun _ => by simp, fun _ => ⟨_, List.mem_map_of_mem List.mem_cons_self, rfl⟩⟩

/-! ## Any history of registrations -/

def Current.Subscribes (cur : Current) (c : CommunityId) (ch : Uuid) (conn : ConnId) : Prop :=
  ∃ sub e, cur conn sub = some e ∧ e.communityId = c ∧ e.channelId = some ch

def Current.Listens (cur : Current) (c : CommunityId) (ch : Uuid) (conn : ConnId) : Prop :=
  ∃ sub e, cur conn sub = some e ∧ e.communityId = c ∧ e.channelId = some ch ∧
    TakesSomeKind e.filters

theorem Current.Listens.subscribes {cur : Current} {c : CommunityId} {ch : Uuid}
    (h : cur.Listens c ch conn) : cur.Subscribes c ch conn := by
  obtain ⟨sub, e, he, hc, hch, -⟩ := h
  exact ⟨sub, e, he, hc, hch⟩

def SeesEverySubscriber (r : SubscriptionRegistry) (cur : Current) (c : CommunityId) (ch : Uuid) :
    Prop :=
  (channelSubscriberConnsScoped r c ch).Nodup ∧
    ∀ conn, conn ∈ channelSubscriberConnsScoped r c ch ↔ cur.Subscribes c ch conn

theorem mem_conns_iff_listens (hfiled : AllFiled r) (hstale : NoneStale r) (c : CommunityId)
    (ch : Uuid) (conn : ConnId) :
    conn ∈ channelSubscriberConnsScoped r c ch ↔ Current.Listens r.entry c ch conn := by
  rw [mem_channelSubscriberConns]
  constructor
  · rintro ⟨sub, b, hsub, hchannel⟩
    obtain ⟨e, he, hb⟩ := hstale conn sub b hsub
    obtain ⟨rfl, hch⟩ := channel_of_mem_bucketsFor hb hchannel
    exact ⟨sub, e, he, rfl, hch, (exists_bucket_iff hch).mp ⟨b, hb, hchannel⟩⟩
  · rintro ⟨sub, e, he, rfl, hch, htakes⟩
    obtain ⟨b, hb, hchannel⟩ := (exists_bucket_iff hch).mpr htakes
    exact ⟨sub, b, hfiled conn sub e he b hb, hchannel⟩

/-- After any calls the answer is right just when each connection of the channel has a subscription
to it that takes some kind. -/
theorem sees_every_subscriber_iff (calls : List Call) (c : CommunityId) (ch : Uuid) :
    let r := calls.foldl SubscriptionRegistry.apply .new
    let cur : Current := calls.foldl Current.apply fun _ _ => none
    SeesEverySubscriber r cur c ch ↔
      ∀ conn, cur.Subscribes c ch conn → cur.Listens c ch conn := by
  intro r cur
  have hcur : r.entry = cur := entry_run calls .new
  have hmem := mem_conns_iff_listens (allFiled_run calls .new allFiled_new)
    (noneStale_run calls noneStale_new) c ch
  rw [show (calls.foldl SubscriptionRegistry.apply .new).entry = cur from hcur] at hmem
  constructor
  · rintro ⟨-, hall⟩ conn hsub
    exact (hmem conn).mp ((hall conn).mpr hsub)
  · intro hall
    refine ⟨nodup_channelSubscriberConns r c ch, fun conn => (hmem conn).trans ?_⟩
    exact ⟨Current.Listens.subscribes, hall conn⟩

def noKinds : Filter := ⟨none, none, some [], none, none, []⟩

/-- Connection 1 has subscribed to the channel with `kinds: []`. -/
theorem no_kinds_unseen :
    ¬ ∀ (calls : List Call) (c : CommunityId) (ch : Uuid),
      SeesEverySubscriber (calls.foldl SubscriptionRegistry.apply .new)
        (calls.foldl Current.apply fun _ _ => none) c ch := by
  intro h
  have hconn := (h [.registerScoped 7 1 "a" [noKinds] (some 9)] 7 9).2 1
  have hnone : channelSubscriberConnsScoped
      ([Call.registerScoped 7 1 "a" [noKinds] (some 9)].foldl SubscriptionRegistry.apply .new)
      7 9 = [] := by decide +kernel
  rw [hnone] at hconn
  exact List.not_mem_nil (hconn.mpr ⟨"a", ⟨[noKinds], 7, some 9⟩, by decide, rfl, rfl⟩)

end Vingilot.Subscription
