import Vingilot.Query.Pushdown
import Vingilot.Query.Req
import Vingilot.Subscription.FanOut

/-! # Stored and live delivery of channel filters

Historical delivery has a scope for each filter. A subscription has one scope, which is a
channel only when all filters name the same one.
-/

namespace Vingilot.Query

open Workflow (fromTimestamp asI64 nanos)
open Subscription (ConnId SubId SubscriptionRegistry filterMatchOne filtersMatch fanOutScoped)

/-! ## The channels a filter names -/

variable {f : ReqFilter}

theorem tagValues_of_mem {key : Char} {values : List String} (h : (key, values) ∈ f.genericTags) :
    f.tagValues key = some values := by
  have hnodup := f.keys_nodup
  unfold ReqFilter.tagValues
  generalize f.genericTags = tags at h hnodup
  induction tags with
  | nil => cases h
  | cons entry tags ih =>
    obtain ⟨k, vs⟩ := entry
    rw [List.map_cons, List.nodup_cons] at hnodup
    rcases List.mem_cons.mp h with heq | hmem
    · cases heq
      simp
    · have hne : ¬ key = k := by
        rintro rfl
        exact hnodup.1 (List.mem_map.mpr ⟨(key, values), hmem, rfl⟩)
      have hbeq : (key == k) = false := by simpa using hne
      rw [List.lookup_cons, hbeq]
      exact ih hmem hnodup.2

variable {ch : Uuid}

theorem mem_channels :
    ch ∈ f.channels ↔ ∃ values, f.tagValues 'h' = some values ∧ ∃ v ∈ values, parseUuid v = some ch := by
  simp only [ReqFilter.channels, List.mem_flatMap, Prod.exists]
  constructor
  · rintro ⟨key, values, hmem, hch⟩
    split_ifs at hch with hkey
    · subst hkey
      exact ⟨values, tagValues_of_mem hmem, List.mem_filterMap.mp hch⟩
    · cases hch
  · rintro ⟨values, hvalues, hv⟩
    exact ⟨'h', values, mem_genericTags hvalues, by simpa [List.mem_filterMap] using hv⟩

theorem eq_singleChannel {c : Uuid} (hch : ch ∈ f.channels) (hsingle : singleChannel f = some c) :
    ch = c := by
  obtain ⟨values, hvalues, v, hv, hparse⟩ := mem_channels.mp hch
  simp only [singleChannel, hvalues, Option.bind_some] at hsingle
  split at hsingle
  · rename_i hlen
    obtain ⟨w, rfl⟩ := List.length_eq_one_iff.mp hlen
    rw [List.mem_singleton.mp hv] at hparse
    simp only [List.head?_cons, Option.bind_some, hparse] at hsingle
    exact Option.some.inj hsingle
  · cases hsingle

theorem mem_channels_of_single {c : Uuid} (hsingle : singleChannel f = some c) :
    c ∈ f.channels := by
  obtain ⟨values, hvalues, hc⟩ := Option.bind_eq_some_iff.mp hsingle
  split at hc
  · rename_i hlen
    obtain ⟨v, rfl⟩ := List.length_eq_one_iff.mp hlen
    exact mem_channels.mpr ⟨[v], hvalues, v, by simp, by simpa using hc⟩
  · cases hc

theorem foldlM_noteChannel {ids : List Uuid} {found : Option Uuid} {c : Uuid} :
    ids.foldlM noteChannel found = some (some c) ↔
      (ids ≠ [] ∨ found = some c) ∧ (∀ id ∈ ids, id = c) ∧ ∀ e, found = some e → e = c := by
  induction ids generalizing found with
  | nil =>
    simp only [List.foldlM_nil, Option.pure_def, Option.some.injEq]
    constructor
    · rintro rfl
      simp
    · rintro ⟨hsome, -, -⟩
      simpa using hsome
  | cons id ids ih =>
    rw [List.foldlM_cons]
    cases found with
    | none =>
      simp [noteChannel, ih, and_comm]
      exact fun h _ => .inr h
    | some e =>
      by_cases he : e = id
      · subst he
        simp [noteChannel, ih, and_comm]
        exact fun h _ => .inr h
      · simp only [noteChannel, ne_eq, he, not_false_eq_true, if_true]
        simp
        grind

theorem noteChannel_ne_none {ids : List Uuid} {found : Option Uuid} (hids : ids ≠ []) :
    ids.foldlM noteChannel found ≠ some none := by
  induction ids generalizing found with
  | nil => exact absurd rfl hids
  | cons id ids ih =>
    intro h
    rw [List.foldlM_cons] at h
    obtain ⟨next, hnext, h⟩ := Option.bind_eq_some_iff.mp h
    have hsome : next = some id := by
      cases found with
      | none => simpa [noteChannel] using hnext.symm
      | some e =>
        simp only [noteChannel] at hnext
        split at hnext
        · cases hnext
        · exact (Option.some.inj hnext).symm
    cases ids with
    | nil => simp [hsome] at h
    | cons id' ids => exact ih (by simp) h

variable {filters : List ReqFilter}

theorem extractChannelIdFrom_eq_some {found : Option Uuid} :
    extractChannelIdFrom found filters = some ch ↔
      (filters ≠ [] ∨ found = some ch) ∧ (∀ e, found = some e → e = ch) ∧
        ∀ f ∈ filters, f.channels ≠ [] ∧ ∀ c ∈ f.channels, c = ch := by
  induction filters generalizing found with
  | nil =>
    simp only [extractChannelIdFrom]
    constructor
    · rintro rfl
      simp
    · rintro ⟨hsome, -, -⟩
      simpa using hsome
  | cons f rest ih =>
    have hnotes := @foldlM_noteChannel f.channels found ch
    simp only [extractChannelIdFrom]
    by_cases hempty : f.channels = []
    · simp [hempty]
    · cases hfold : f.channels.foldlM noteChannel found with
      | none =>
        rw [hfold] at hnotes
        simp only [false_iff, reduceCtorEq]
        rintro ⟨-, hfound, hall⟩
        obtain ⟨-, hf⟩ := hall f List.mem_cons_self
        simpa using hnotes.mpr ⟨.inl hempty, hf, hfound⟩
      | some out =>
        cases out with
        | none => exact absurd hfold (noteChannel_ne_none hempty)
        | some c =>
          obtain ⟨-, hnamed, hfound⟩ := foldlM_noteChannel.mp hfold
          obtain ⟨id, hid⟩ := List.exists_mem_of_ne_nil _ hempty
          simp only [List.isEmpty_iff, hempty, if_false]
          rw [ih]
          constructor
          · rintro ⟨-, hc, hrest⟩
            obtain rfl := hc c rfl
            exact ⟨.inl (by simp), hfound, List.forall_mem_cons.mpr ⟨⟨hempty, hnamed⟩, hrest⟩⟩
          · rintro ⟨-, -, hall⟩
            obtain ⟨hf, hrest⟩ := List.forall_mem_cons.mp hall
            obtain rfl : c = ch := (hnamed id hid).symm.trans (hf.2 id hid)
            exact ⟨.inr rfl, fun e he => (Option.some.inj he).symm, hrest⟩

theorem eq_perFilterChannel {c : Uuid} (hf : f ∈ filters) (hch : ch ∈ f.channels)
    (hchannel : perFilterChannel f (extractChannelIdFromFilters filters) = some c) : ch = c := by
  rcases Option.or_eq_some_iff.mp hchannel with hsingle | ⟨-, hall⟩
  · exact eq_singleChannel hch hsingle
  · exact ((extractChannelIdFrom_eq_some.mp hall).2.2 f hf).2 ch hch

/-! ## Historical delivery -/

/-- The numbers of the filter fit an `i64`. -/
structure NumbersFit (f : ReqFilter) : Prop where
  since : ∀ s, f.since = some s → s < 2 ^ 63
  until_ : ∀ u, f.until_ = some u → u < 2 ^ 63
  limit : ∀ l, f.limit = some l → l < 2 ^ 63

def WithinLimit (table : List Row) (q : EventQuery) (row : Row) : Prop :=
  (table.filter (queryWhere q)).countP (fun r => decide (rowLe r row)) ≤ q.limitVal.toNat

theorem rowLe_refl (row : Row) : rowLe row row := .inr ⟨rfl, le_rfl⟩

instance : IsTrans Row rowLe where
  trans := by
    rintro a b c (hab | ⟨hab, habId⟩) (hbc | ⟨hbc, hbcId⟩)
    · exact .inl (hbc.trans hab)
    · exact .inl (hbc.symm.trans_lt hab)
    · exact .inl (hbc.trans_eq hab.symm)
    · exact .inr ⟨hab.trans hbc, habId.trans hbcId⟩

instance : Std.Total rowLe where
  total := by
    intro a b
    rcases lt_trichotomy a.createdAt b.createdAt with h | h | h
    · exact .inr (.inl h)
    · rcases le_total a.event.id b.event.id with hid | hid
      · exact .inl (.inr ⟨h, hid⟩)
      · exact .inr (.inr ⟨h.symm, hid⟩)
    · exact .inl (.inl h)

variable {rows : List Row} {q : EventQuery}

theorem queryEvents_ok {table : List Row} (hok : queryEvents table q = .ok rows) :
    (q.matchesNothing = true ∧ rows = []) ∨
      (q.matchesNothing = false ∧
        rows = (((table.filter (queryWhere q)).insertionSort rowLe).drop (q.offset.getD 0)).take
          q.limitVal.toNat) := by
  unfold queryEvents at hok
  split at hok
  · cases hok
  split at hok
  · cases hok
  split at hok
  · rename_i hnothing
    cases hok
    exact .inl ⟨hnothing, rfl⟩
  · rename_i hnothing
    split at hok
    · cases hok
    split at hok
    · cases hok
    cases hok
    exact .inr ⟨by simpa using hnothing, rfl⟩

variable {row : Row}

theorem mem_queryEvents {table : List Row} (hok : queryEvents table q = .ok rows)
    (hoffset : q.offset = none) (hrow : row ∈ table) (hselects : selects q row = true)
    (hlimit : WithinLimit table q row) : row ∈ rows := by
  simp only [selects, Bool.and_eq_true, Bool.not_eq_true'] at hselects
  rcases queryEvents_ok hok with ⟨hnothing, -⟩ | ⟨-, rfl⟩
  · rw [hselects.1] at hnothing
    cases hnothing
  · rw [hoffset, Option.getD_none, List.drop_zero]
    have hperm := List.perm_insertionSort rowLe (table.filter (queryWhere q))
    apply mem_take_of_countP_le rowLe rowLe_refl (List.pairwise_insertionSort rowLe _)
    · exact hperm.mem_iff.mpr (List.mem_filter.mpr ⟨hrow, hselects.2⟩)
    · rw [hperm.countP_eq]
      exact hlimit

theorem reqQuery_eq (community : CommunityId) (reader : String) (channelId : Option Uuid)
    (accessible : List Uuid) (f : ReqFilter) :
    reqQuery community reader channelId accessible f =
      { filterToQueryParams f (perFilterChannel f channelId) community with
        channelIds := match perFilterChannel f channelId with
          | some _ => none
          | none => some accessible
        sharedGatedReader :=
          if filterCanMatchSharedGatedKinds f then some reader else none } := by
  unfold reqQuery historicalQuery applyAccessScopeToQuery
  cases perFilterChannel f channelId <;> split_ifs <;> rfl

theorem validBound_of_fits {bound : Option Nat} (hfits : ∀ s, bound = some s → s < 2 ^ 63) :
    validBound (bound.bind fun s => fromTimestamp (asI64 s)) = true := by
  unfold validBound
  split
  · rename_i t ht
    obtain ⟨s, hs, htime⟩ := Option.bind_eq_some_iff.mp ht
    rw [fromTimestamp_asI64 (hfits s hs) htime, decide_eq_true_eq, nanos_le_nanos]
    omega
  · rfl

theorem limitVal_nonneg {channel : Option Uuid} {community : CommunityId} (hfits : NumbersFit f) :
    0 ≤ (filterToQueryParams f channel community).limitVal := by
  simp only [EventQuery.limitVal, filterToQueryParams, EventQuery.forCommunity, Option.getD_some,
    Option.getD_none, defaultMaxPageLimit]
  cases hl : f.limit with
  | none => simp
  | some l =>
    rw [Option.map_some, Option.getD_some, asI64_of_lt (hfits.limit l hl)]
    omega

theorem queryEvents_runs (table : List Row) (hbefore : q.beforeId = none)
    (hglobal : q.globalOnly = false) (hbounds : q.sqlError = none) (hlimit : 0 ≤ q.limitVal) :
    ∃ rows, queryEvents table q = .ok rows := by
  unfold queryEvents
  rw [if_neg (by simp [hbefore]), if_neg (by simp [hglobal]), hbounds]
  simp only [if_neg (not_lt.mpr hlimit)]
  split_ifs
  · exact ⟨[], rfl⟩
  · exact ⟨_, rfl⟩

variable {reader : String} {accessible : List Uuid}

theorem reqQuery_runs (table : List Row) {community : CommunityId} {channelId : Option Uuid}
    (hfits : NumbersFit f) :
    ∃ rows, queryEvents table (reqQuery community reader channelId accessible f) = .ok rows := by
  have hbounds : (filterToQueryParams f (perFilterChannel f channelId) community).sqlError =
      none := by
    unfold EventQuery.sqlError
    rw [if_neg]
    simp only [filterToQueryParams, validBound_of_fits hfits.since, validBound_of_fits hfits.until_]
    simp
  have hlimit : 0 ≤ (filterToQueryParams f (perFilterChannel f channelId) community).limitVal :=
    limitVal_nonneg hfits
  rw [reqQuery_eq]
  exact queryEvents_runs table rfl rfl hbounds hlimit

variable {sent : List Event} {e : Event}

theorem mem_deliverRow_mono (h : e ∈ sent) : e ∈ deliverRow accessible reader f sent row := by
  unfold deliverRow
  split_ifs <;> simp [h]

theorem mem_foldl_deliverRow_mono (rows : List Row) (h : e ∈ sent) :
    e ∈ rows.foldl (deliverRow accessible reader f) sent := by
  induction rows generalizing sent with
  | nil => exact h
  | cons row rows ih => exact ih (mem_deliverRow_mono h)

theorem sent_of_mem_rows (hrow : row ∈ rows) (hmatch : filtersMatch [f.toFilter] row.stored = true)
    (haccess : inAccessible accessible row = true)
    (hvisible : eventVisibleToReader row.event reader = true) (sent : List Event) :
    ∃ e ∈ rows.foldl (deliverRow accessible reader f) sent, e.id = row.event.id := by
  induction rows generalizing sent with
  | nil => cases hrow
  | cons r rows ih =>
    rcases List.mem_cons.mp hrow with rfl | hmem
    · have hsent : ∃ e ∈ deliverRow accessible reader f sent row, e.id = row.event.id := by
        unfold deliverRow
        simp only [hmatch, haccess, hvisible, Bool.not_true, Bool.false_eq_true, if_false]
        split_ifs with hseen
        · simpa using hseen
        · exact ⟨row.event, by simp, rfl⟩
      obtain ⟨e, he, hid⟩ := hsent
      exact ⟨e, mem_foldl_deliverRow_mono rows he, hid⟩
    · exact ih hmem _

variable {tables : Nat → List Row}

theorem mem_deliverFilters_mono {query : ReqFilter → EventQuery} (filters : List ReqFilter)
    {idx : Nat} (h : e ∈ sent) :
    e ∈ deliverFilters tables query accessible reader idx sent filters := by
  induction filters generalizing idx sent with
  | nil => exact h
  | cons f rest ih =>
    unfold deliverFilters
    split
    · exact h
    · exact ih (mem_foldl_deliverRow_mono _ h)

theorem sent_of_mem_page {query : ReqFilter → EventQuery}
    (hruns : ∀ f ∈ filters, ∀ table, ∃ rows, queryEvents table (query f) = .ok rows) {i idx : Nat}
    (hf : filters[i]? = some f)
    (hpage : ∀ rows, queryEvents (tables (idx + i)) (query f) = .ok rows → row ∈ rows)
    (hmatch : filtersMatch [f.toFilter] row.stored = true)
    (haccess : inAccessible accessible row = true)
    (hvisible : eventVisibleToReader row.event reader = true) (sent : List Event) :
    ∃ e ∈ deliverFilters tables query accessible reader idx sent filters,
      e.id = row.event.id := by
  induction filters generalizing i idx sent with
  | nil => simp at hf
  | cons g rest ih =>
    obtain ⟨rows, hrows⟩ := hruns g List.mem_cons_self (tables idx)
    simp only [deliverFilters, hrows]
    cases i with
    | zero =>
      obtain rfl : g = f := by simpa using hf
      obtain ⟨e, he, hid⟩ := sent_of_mem_rows (hpage rows hrows) hmatch haccess hvisible sent
      exact ⟨e, mem_deliverFilters_mono rest he, hid⟩
    | succ i =>
      apply ih (fun h hh => hruns h (List.mem_cons_of_mem _ hh)) (i := i) (by simpa using hf)
      have hidx : idx + 1 + i = idx + (i + 1) := by omega
      rwa [hidx]

theorem sharedGate_of_visible
    (hreader : q.sharedGatedReader = none ∨ q.sharedGatedReader = some reader)
    (hvisible : eventVisibleToReader row.event reader = true) : sharedGateClause q row = true := by
  unfold sharedGateClause
  rcases hreader with h | h <;> rw [h]
  simp only [eventVisibleToReader, isUnsharedGatedEvent, Bool.and_eq_true, Bool.not_eq_true',
    Bool.and_eq_false_iff, bne_eq_false_iff_eq, Bool.not_eq_false'] at hvisible
  rcases hvisible.1.2 with (hkind | hauthor) | hshared
  · simp only [hkind, Bool.not_false, Bool.true_or]
  · simp [hauthor]
  · simp only [eventIsShared, Bool.and_eq_true, List.all_eq_true, beq_iff_eq] at hshared
    obtain ⟨t, ht⟩ := List.length_eq_one_iff.mp hshared.2
    have hmem : t ∈ row.event.tags.filter fun t => t.kind == "shared" := by simp [ht]
    have hvalues : t.values = ["true"] := hshared.1 t hmem
    have hkind : t.kind = "shared" := by simpa using (List.mem_filter.mp hmem).2
    have htag : tagsContain row.event.tags "shared" "true" = true :=
      List.any_eq_true.mpr ⟨t, List.mem_of_mem_filter hmem, by simp [hvalues, hkind]⟩
    simp [htag]

theorem reqQuery_selects (hf : f ∈ filters) (hlive : row.deletedAt = none)
    (hchannel : row.channelId = some ch) (hnamed : ch ∈ f.channels) (haccess : ch ∈ accessible)
    (hmatch : Matched f.toFilter row.stored) (hfits : NumbersFit f)
    (hmentioned : Mentioned f row) (hd : FirstDWanted f row) (hvisible : eventVisibleToReader row.event reader = true) :
    selects (reqQuery row.communityId reader (extractChannelIdFromFilters filters) accessible f)
      row = true := by
  have hfields := fieldsWhere_of_matched
    (perFilterChannel f (extractChannelIdFromFilters filters)) row.communityId hmatch hmentioned
    (until_kept _ _ hmatch fun u _ hu ht => fromTimestamp_asI64 (hfits.until_ u hu) ht) hd
  have hsame : ∀ c, perFilterChannel f (extractChannelIdFromFilters filters) = some c → c = ch :=
    fun c hc => (eq_perFilterChannel hf hnamed hc).symm
  rw [selects_eq, reqQuery_eq]
  generalize perFilterChannel f (extractChannelIdFromFilters filters) = channel at hfields hsame ⊢
  refine Bool.and_eq_true _ _ ▸ ⟨hfields, ?_⟩
  simp only [scopeWhere, Bool.and_eq_true]
  refine ⟨⟨⟨⟨by simp [filterToQueryParams, EventQuery.forCommunity], by simp [hlive]⟩, ?_⟩, ?_⟩,
    sharedGate_of_visible ?_ hvisible⟩
  · cases channel with
    | none => simp [channelClause, filterToQueryParams, EventQuery.forCommunity]
    | some c => simp [channelClause, filterToQueryParams, hchannel, hsame c rfl]
  · cases channel with
    | none => simpa [channelIdsClause, hchannel] using haccess
    | some c => rfl
  · dsimp only
    split_ifs
    · exact .inr rfl
    · exact .inl rfl

/-! ## Live delivery -/

theorem mem_fanOut_iff {before after : List Subscription.Call} {subId : SubId} {conn : Connection}
    {answer : ReqAnswer}
    (hanswer : answer = registerAndDeliver subId filters conn
      (before.foldl SubscriptionRegistry.apply .new) tables reader accessible)
    (hstands : (after.foldl SubscriptionRegistry.apply answer.registry).entry conn.connId subId =
      answer.registry.entry conn.connId subId) {ev : StoredEvent}
    (hmatch : filtersMatch (filters.map ReqFilter.toFilter) ev = true) :
    (conn.connId, subId) ∈ fanOutScoped (after.foldl SubscriptionRegistry.apply answer.registry)
        conn.community ev ↔ extractChannelIdFromFilters filters = ev.channelId := by
  have hfiled : Subscription.AllFiled
      (after.foldl SubscriptionRegistry.apply answer.registry) := by
    apply Subscription.allFiled_run
    rw [hanswer]
    exact Subscription.allFiled_registerScoped _ _ _ _ _ _
      (Subscription.allFiled_run before .new Subscription.allFiled_new)
  have hentry : (after.foldl SubscriptionRegistry.apply answer.registry).entry conn.connId subId =
      some ⟨filters.map ReqFilter.toFilter, conn.community,
        extractChannelIdFromFilters filters⟩ := by
    rw [hstands, hanswer]
    simp [registerAndDeliver, Subscription.entry_registerScoped]
  constructor
  · intro hmem
    obtain ⟨e, he, -, hchannel, -⟩ :=
      (Subscription.delivers_iff ..).mp ((Subscription.mem_fanOutScoped ..).mp hmem).2
    rw [hentry] at he
    cases he
    exact hchannel
  · intro hchannel
    exact Subscription.mem_fanOut_of_filed _ ev conn.connId subId _ hentry
      (hfiled conn.connId subId _ hentry) hchannel hmatch

/-! ## Both -/

/-- For a `REQ` whose filters all name channels the reader may read, the historical answer has
every visible event of a channel that a filter it matches names, up to the limit. Live delivery
has such an event exactly when its channel is the only one the `REQ` names. -/
theorem stored_and_live_delivery (before : List Subscription.Call) (subId : SubId)
    (filters : List ReqFilter) (conn : Connection) (db : Memberships) (tables : Nat → List Row)
    (answer : ReqAnswer)
    (hreq : handleReq subId filters conn db (before.foldl SubscriptionRegistry.apply .new) tables =
      .ok answer)
    (hnamed : ∀ f ∈ filters, f.channels ≠ [])
    (haccess : ∀ f ∈ filters, ∀ ch ∈ f.channels, ch ∈ answer.accessible)
    (hfits : ∀ f ∈ filters, NumbersFit f) :
    (∀ i f row ch, filters[i]? = some f → row ∈ tables i → row.communityId = conn.community →
      row.deletedAt = none → row.channelId = some ch → ch ∈ f.channels →
      filtersMatch [f.toFilter] row.stored = true →
      eventVisibleToReader row.event answer.reader = true → Mentioned f row → FirstDWanted f row →
      WithinLimit (tables i)
        (reqQuery conn.community answer.reader answer.channelId answer.accessible f) row →
      ∃ e ∈ answer.events, e.id = row.event.id) ∧
    (∀ (after : List Subscription.Call) (ev : StoredEvent) (ch : Uuid),
      (after.foldl SubscriptionRegistry.apply answer.registry).entry conn.connId subId =
        answer.registry.entry conn.connId subId →
      ev.channelId = some ch → filtersMatch (filters.map ReqFilter.toFilter) ev = true →
      ((conn.connId, subId) ∈ fanOutScoped
          (after.foldl SubscriptionRegistry.apply answer.registry) conn.community ev ↔
        ∀ f ∈ filters, ∀ c ∈ f.channels, c = ch)) := by
  obtain ⟨reader, accessible, hanswer⟩ := handleReq_ok hreq
  constructor
  · intro i f row ch hi hrow hcommunity hlive hchannel hf hmatch hvisible hmentioned hd hlimit
    have hmem : f ∈ filters := List.mem_of_getElem? hi
    have hmatched : Matched f.toFilter row.stored := by
      apply (filterMatchOne_iff _ _).mp
      simpa [filtersMatch] using hmatch
    have hch := haccess f hmem ch hf
    subst hanswer
    simp only [registerAndDeliver] at hch hvisible hlimit ⊢
    have hselects := reqQuery_selects hmem hlive hchannel hf hch hmatched (hfits f hmem)
      hmentioned hd hvisible
    rw [hcommunity] at hselects
    apply sent_of_mem_page (fun g hg table => reqQuery_runs table (hfits g hg)) hi _ hmatch _ hvisible
    · intro rows hrows
      rw [Nat.zero_add] at hrows
      exact mem_queryEvents hrows (by rw [reqQuery_eq]; rfl) hrow hselects hlimit
    · simpa [inAccessible, hchannel] using hch
  · intro after ev ch hstands hchannel hmatch
    rw [mem_fanOut_iff hanswer hstands hmatch, hchannel]
    have hne : filters ≠ [] := by
      rintro rfl
      simp [filtersMatch] at hmatch
    unfold extractChannelIdFromFilters
    rw [extractChannelIdFrom_eq_some]
    constructor
    · rintro ⟨-, -, hall⟩ f hf
      exact (hall f hf).2
    · intro hall
      exact ⟨.inl hne, by simp, fun f hf => ⟨hnamed f hf, hall f hf⟩⟩

def readerConnection : Connection := ⟨1, 0, some ⟨"a1", [], none⟩, ∅⟩

/-- The answer to a `REQ` for messages of some channels, all of them accessible. -/
def messagesAnswer (channels : List Uuid) (tables : Nat → List Row) : ReqAnswer :=
  registerAndDeliver "sub" [messagesOf channels] readerConnection .new tables "a1" channels

theorem channel_messages_delivered :
    (∃ e ∈ (messagesAnswer [7] fun _ => [messageIn 7 'f']).events,
      e.id = (messageIn 7 'f').event.id) ∧
    (1, "sub") ∈ fanOutScoped (messagesAnswer [7] fun _ => [messageIn 7 'f']).registry 0
      (messageIn 7 'e').stored := by
  have hreq : handleReq "sub" [messagesOf [7]] readerConnection ⟨some [7], fun _ => some true⟩ .new
      (fun _ => [messageIn 7 'f']) = .ok (messagesAnswer [7] fun _ => [messageIn 7 'f']) := by
    rfl
  have hchannels : ∀ f ∈ [messagesOf [7]], f.channels = [7] := by
    intro f hf
    rw [List.mem_singleton.mp hf]
    decide +kernel
  have hfits : NumbersFit (messagesOf [7]) :=
    ⟨by simp [messagesOf], by simp [messagesOf], by simp [messagesOf]⟩
  have hboth := stored_and_live_delivery [] "sub" [messagesOf [7]] readerConnection
    ⟨some [7], fun _ => some true⟩ (fun _ => [messageIn 7 'f']) _ hreq
    (fun f hf => by rw [hchannels f hf]; simp) (fun f hf ch hch => by rwa [hchannels f hf] at hch)
    (fun f hf => List.mem_singleton.mp hf ▸ hfits)
  constructor
  · exact hboth.1 0 _ (messageIn 7 'f') 7 rfl (by simp) rfl rfl rfl (by decide +kernel)
      (by decide +kernel) (by decide +kernel) (messagesOf_mentioned _ _) (messagesOf_firstD _ _)
      (by unfold WithinLimit; decide +kernel)
  · apply (hboth.2 [] (messageIn 7 'e').stored 7 rfl rfl (by decide +kernel)).mpr
    intro f hf c hc
    rw [hchannels f hf] at hc
    exact List.mem_singleton.mp hc

/-- A `REQ` for two channels is accepted, but a later message of one of them reaches no
subscription. -/
theorem two_channels_not_live :
    handleReq "sub" [messagesOf [7, 8]] readerConnection ⟨some [7, 8], fun _ => some true⟩ .new
        (fun _ => []) = .ok (messagesAnswer [7, 8] fun _ => []) ∧
      filtersMatch [(messagesOf [7, 8]).toFilter] (messageIn 7 'f').stored = true ∧
      eventVisibleToReader (messageIn 7 'f').event "a1" = true ∧
      fanOutScoped (messagesAnswer [7, 8] fun _ => []).registry 0 (messageIn 7 'f').stored = [] := by
  refine ⟨rfl, ?_, ?_, ?_⟩ <;> decide +kernel

end Vingilot.Query
