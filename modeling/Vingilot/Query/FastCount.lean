import Vingilot.Query.Count
import Vingilot.Query.Delivery

/-!
# Counting in SQL alone and counting row by row

Both counts have the same `WHERE`, so they differ by the rows that SQL selects and `filters_match`
refuses. The filter and the row tell which these are.
-/

namespace Vingilot.Query

open Workflow (fromTimestamp asI64 nanos)
open Subscription (filtersMatch filterMatchOne tagRequirementMet)

def countQuery (f : ReqFilter) (reader : String) (community : CommunityId)
    (channelIds : Option (List Uuid)) : EventQuery :=
  { withSharedGate f reader (buildEventQueryFromFilter f community) with channelIds }

theorem countQuery_eq (f : ReqFilter) (reader : String) (community : CommunityId)
    (channelIds : Option (List Uuid)) :
    countQuery f reader community channelIds =
      { buildEventQueryFromFilter f community with
        channelIds
        sharedGatedReader :=
          if filterCanMatchSharedGatedKinds f then some reader else none } := by
  unfold countQuery withSharedGate
  split_ifs <;> rfl

/-! ## What the clauses say of the fields -/

def tagAdmits (f : ReqFilter) (row : Row) (key : Char) : Bool :=
  let q := buildEventQueryFromFilter f row.communityId
  match key with
  | 'h' => channelClause q row
  | 'p' => mentionsClause q row
  | 'd' => dTagClause q row
  | 'e' => eTagsClause q row
  | _ => true

structure SqlExact (f : ReqFilter) (row : Row) : Prop where
  since : ∀ s, f.since = some s → s ≤ 8210266876799
  authors : f.authors ≠ some []
  ids : f.ids ≠ some []
  tags : ∀ key values, (key, values) ∈ f.genericTags → tagAdmits f row key = true →
    tagRequirementMet row.stored key values = true

section Fields

variable {f : ReqFilter} {row : Row}

theorem since_of_clause (hclause : sinceClause (buildEventQueryFromFilter f row.communityId) row = true)
    {s : Nat} (hs : f.since = some s) (hle : s ≤ 8210266876799) : s ≤ row.event.createdAt := by
  have hbound : (buildEventQueryFromFilter f row.communityId).since = some (nanos s) := by
    have hsince : (buildEventQueryFromFilter f row.communityId).since =
      f.since.bind fun s => fromTimestamp (asI64 s) := rfl
    rw [hsince, hs, Option.bind_some, fromTimestamp_of_le hle]
  unfold sinceClause at hclause
  rw [hbound] at hclause
  have hnanos := of_decide_eq_true hclause
  rw [Row.createdAt, nanos_le_nanos] at hnanos
  omega

theorem until_of_clause
    (hclause : untilClause (buildEventQueryFromFilter f row.communityId) row = true)
    {u : Nat} (hu : f.until_ = some u) : row.event.createdAt ≤ u := by
  by_contra hlt
  have hrow := row.createdAt_le
  have hle : u ≤ 8210266876799 := by omega
  have hbound : (buildEventQueryFromFilter f row.communityId).until_ = some (nanos u) := by
    have huntil : (buildEventQueryFromFilter f row.communityId).until_ =
      f.until_.bind fun u => fromTimestamp (asI64 u) := rfl
    rw [huntil, hu, Option.bind_some, fromTimestamp_of_le hle]
  unfold untilClause at hclause
  rw [hbound] at hclause
  have hnanos := of_decide_eq_true hclause
  rw [Row.createdAt, nanos_le_nanos] at hnanos
  omega

theorem author_of_clauses {channel : Option Uuid} {community : CommunityId}
    (hpubkey : pubkeyClause (filterToQueryParams f channel community) row = true)
    (hauthors : inClause (severalValues f.authors) row.event.pubkey = true)
    (hne : f.authors ≠ some []) {authors : List String} (ha : f.authors = some authors) :
    row.event.pubkey ∈ authors := by
  match authors, ha with
  | [], ha => exact absurd ha hne
  | [a], ha =>
    have honly : (filterToQueryParams f channel community).pubkey = some a :=
      onlyValue_eq_some.mpr ha
    simpa [pubkeyClause, honly] using hpubkey
  | a :: b :: rest, ha =>
    have hseveral : severalValues f.authors = some (a :: b :: rest) :=
      severalValues_eq_some.mpr ⟨ha, by simp⟩
    simpa [inClause, hseveral] using hauthors

theorem matched_of_fields
    (hfields : fieldsWhere (buildEventQueryFromFilter f row.communityId) row = true)
    (hchannel : channelClause (buildEventQueryFromFilter f row.communityId) row = true)
    (hexact : SqlExact f row) : Matched f.toFilter row.stored := by
  have hcursor : cursorClause (buildEventQueryFromFilter f row.communityId) row =
      untilClause (buildEventQueryFromFilter f row.communityId) row :=
    cursorClause_of_no_cursor rfl
  simp only [fieldsWhere, Bool.and_eq_true, Bool.not_eq_true', hcursor] at hfields
  obtain ⟨⟨⟨⟨⟨⟨⟨⟨⟨hnothing, hmentions⟩, hkinds⟩, hpubkey⟩, hauthors⟩, hids⟩, hetags⟩, hsince⟩,
    hdtag⟩, huntil⟩ := hfields
  refine ⟨?_, fun authors ha => author_of_clauses hpubkey hauthors hexact.authors ha,
    fun s hs => since_of_clause hsince hs (hexact.since s hs),
    fun u hu => until_of_clause huntil hu, ?_, ?_⟩
  · intro kinds hk
    have hquery : (buildEventQueryFromFilter f row.communityId).kinds = some kinds := hk
    have hne : kinds ≠ [] := by
      rintro rfl
      simp [EventQuery.matchesNothing, hquery] at hnothing
    simpa [inClause, hquery, hne, Row.stored] using hkinds
  · intro ids hi
    have hne : ids ≠ [] := by
      rintro rfl
      exact hexact.ids hi
    have hquery : (buildEventQueryFromFilter f row.communityId).ids = some ids :=
      nonemptyValues_eq_some.mpr ⟨hi, hne⟩
    refine ⟨row.event.id, by simpa [inClause, hquery, hne] using hids, List.prefix_rfl⟩
  · intro key values hmem
    apply hexact.tags key values hmem
    unfold tagAdmits
    split
    · exact hchannel
    · exact hmentions
    · exact hdtag
    · exact hetags
    · rfl

theorem kind_not_gated {gated : List Kind} (hgated : canMatchKinds gated f = false)
    (hmatch : Matched f.toFilter row.stored) : gated.contains row.event.kind = false := by
  unfold canMatchKinds at hgated
  cases hk : f.kinds with
  | none => simp [hk] at hgated
  | some kinds =>
    simp only [hk, List.any_eq_false, Bool.not_eq_true] at hgated
    exact hgated _ (hmatch.kinds kinds hk)

theorem mem_of_onlySelf {values : List String} {reader v : String}
    (h : onlySelf (some values) reader = true) (hv : v ∈ values) : v = reader := by
  simp only [onlySelf, Bool.and_eq_true, List.all_eq_true, beq_iff_eq] at h
  exact h.2 v hv

theorem visible_of_countsInSql {reader : String} (hsql : countsInSql f reader = true)
    (hmatch : Matched f.toFilter row.stored) : eventVisibleToReader row.event reader = true := by
  simp only [countsInSql, Bool.and_eq_true, Bool.or_eq_true, Bool.not_eq_true',
    Bool.and_eq_false_iff, Bool.not_eq_false'] at hsql
  obtain ⟨⟨⟨-, hauthor⟩, hresult⟩, hshared⟩ := hsql
  have hauthorOnly : isAuthorOnlyEvent row.event reader = false := by
    rcases hauthor with hkinds | hself
    · simp only [isAuthorOnlyEvent, kind_not_gated hkinds hmatch, Bool.false_and]
    · cases ha : f.authors with
      | none => simp [onlySelf, ha] at hself
      | some authors =>
        rw [ha] at hself
        have hauthor : row.event.pubkey = reader :=
          mem_of_onlySelf hself (hmatch.authors authors ha)
        simp [isAuthorOnlyEvent, hauthor]
  have hunshared : isUnsharedGatedEvent row.event reader = false := by
    simp only [isUnsharedGatedEvent, kind_not_gated hshared hmatch, Bool.false_and]
  have hreader : readerAuthorizedForEvent row.event reader = true := by
    unfold readerAuthorizedForEvent
    rcases hresult with hkinds | hself
    · rw [if_neg (by rw [kind_not_gated hkinds hmatch]; exact Bool.false_ne_true)]
    · unfold resultGatedCountSafeForPushdown at hself
      cases hp : f.tagValues 'p' with
      | none => simp [onlySelf, hp] at hself
      | some values =>
        rw [hp] at hself
        obtain ⟨v, hv, t, ht, hkind, hcontent⟩ :=
          (tagRequirementMet_iff _ 'p' values (by decide)).mp
            (hmatch.tags 'p' values (mem_genericTags hp))
        rw [mem_of_onlySelf hself hv] at hcontent
        split_ifs
        · exact List.any_eq_true.mpr ⟨t, ht, by simpa [hcontent] using hkind⟩
        · rfl
  simp [eventVisibleToReader, hauthorOnly, hunshared, hreader]

end Fields

/-! ## The two counts of a filter -/

section Queries

variable {q : EventQuery}

theorem perm_of_queryEvents {table rows : List Row} (hok : queryEvents table q = .ok rows)
    (hoffset : q.offset = none) (hshort : rows.length < q.limitVal.toNat) :
    rows.Perm (table.filter (selects q)) := by
  rcases queryEvents_ok hok with ⟨hnothing, rfl⟩ | ⟨hsome, rfl⟩
  · simp [selects, hnothing]
  · have hwhere : selects q = queryWhere q := by
      funext row
      simp [selects, hsome]
    rw [hoffset, Option.getD_none, List.drop_zero] at hshort ⊢
    rw [List.length_take] at hshort
    rw [List.take_of_length_le (by omega), hwhere]
    exact List.perm_insertionSort rowLe _

theorem channelClause_build (f : ReqFilter) (community : CommunityId) (row : Row) :
    channelClause (buildEventQueryFromFilter f community) row = true ↔
      ∀ ch, extractChannelIdFromFilter f = some ch → row.channelId = some ch := by
  cases hch : extractChannelIdFromFilter f <;>
    simp [channelClause, buildEventQueryFromFilter, filterToQueryParams, EventQuery.forCommunity,
      hch]

theorem countWhere_eq (row : Row) (hbefore : q.beforeId = none) :
    (!q.matchesNothing && countWhere q row) =
      (fieldsWhere q row && (row.communityId == q.communityId && row.deletedAt.isNone) &&
        (channelClause q row && channelIdsClause q row)) := by
  unfold countWhere commonWhere fieldsWhere
  rw [cursorClause_of_no_cursor hbefore]
  ac_rfl

end Queries

/-- The fallback of `handle_count` without its read gates. -/
def postFilteredCount (table : List Row) (f : ReqFilter) (q : EventQuery) : Except DbError Nat :=
  (queryEvents table (applyCountFallbackLimit q)).map fun storedEvents =>
    storedEvents.countP fun row => filtersMatch [f.toFilter] row.stored

/-- The rows that `count_events` counts. -/
def countsInQuery (q : EventQuery) (row : Row) : Bool :=
  !q.matchesNothing && q.sqlError.isNone && countWhere q row

inductive Overcounted (f : ReqFilter) (row : Row) : Prop
  | noAuthors (h : f.authors = some [])
  | noIds (h : f.ids = some [])
  | noValues (key : Char) (h : (key, []) ∈ f.genericTags)
  /-- A `since` past the range of `chrono` is left out, or wraps. -/
  | lateSince (s : Nat) (h : f.since = some s) (hlate : 8210266876799 < s)
  /-- The query asks for the channel that the row is stored in, or for none when the value is no
  UUID, and the filter for an `h` tag. -/
  | otherChannel (v : String) (h : ('h', [v]) ∈ f.genericTags)
      (hno : ∀ t ∈ row.event.tags, t.kind = "h" → t.content ≠ some v)
      (hfallback : (∃ t ∈ row.event.tags, t.kind = "h") ∨ row.channelId.map Uuid.toText ≠ some v)
  | otherCase (v : String) (h : ('p', [v]) ∈ f.genericTags)
      (hno : ∀ t ∈ row.event.tags, t.kind = "p" → t.content ≠ some v)
  /-- The column of a row without a `d` value is the empty text. -/
  | noDTag (values : List String) (h : ('d', values) ∈ f.genericTags)
      (hno : ∀ t ∈ row.event.tags, t.kind = "d" → t.content = none)
  /-- A tag has `e` and the value, but not as its name and its first value. -/
  | elsewhere (values : List String) (h : ('e', values) ∈ f.genericTags)
      (hno : ∀ t ∈ row.event.tags, t.kind = "e" → ∀ v ∈ values, t.content ≠ some v)

/-! ## One row -/

section Tags

variable {ev : StoredEvent} {f : ReqFilter} {row : Row}

theorem tagRequirementMet_nil (ev : StoredEvent) (key : Char) :
    tagRequirementMet ev key [] = false := by
  unfold tagRequirementMet
  cases ev.channelId <;> simp

theorem channelRequirementMet_iff (ev : StoredEvent) (v : String) :
    tagRequirementMet ev 'h' [v] = true ↔
      (∃ t ∈ ev.event.tags, t.kind = "h" ∧ t.content = some v) ∨
        (∀ t ∈ ev.event.tags, t.kind ≠ "h") ∧ ev.channelId.map Uuid.toText = some v := by
  have hname : String.singleton 'h' = "h" := by decide
  unfold tagRequirementMet
  by_cases htag : ∃ t ∈ ev.event.tags, t.kind = "h" ∧ t.content = some v
  · have hmatch : (ev.event.tags.any fun t => t.kind == "h" && t.content == some v) = true := by
      simpa [List.any_eq_true] using htag
    simp [hname, hmatch, htag]
  · have hmatch : (ev.event.tags.any fun t => t.kind == "h" && t.content == some v) = false := by
      rw [List.any_eq_false]
      intro t ht hboth
      exact htag ⟨t, ht, by simpa using hboth⟩
    by_cases hany : ∃ t ∈ ev.event.tags, t.kind = "h"
    · have hhas : (ev.event.tags.any fun t => t.kind == "h") = true := by
        simpa [List.any_eq_true] using hany
      obtain ⟨t, ht, hkind⟩ := hany
      simp only [hname, List.any_cons, List.any_nil, Bool.or_false, hmatch, hhas]
      simp only [htag, false_or]
      constructor
      · intro h
        cases h
      · intro h
        exact absurd hkind (h.1 t ht)
    · have hnone : (ev.event.tags.any fun t => t.kind == "h") = false := by
        rw [List.any_eq_false]
        intro t ht hkind
        exact hany ⟨t, ht, by simpa using hkind⟩
      have hall : ∀ t ∈ ev.event.tags, t.kind ≠ "h" := fun t ht hkind => hany ⟨t, ht, hkind⟩
      rw [or_iff_right htag, and_iff_right hall]
      cases ev.channelId with
      | none => simp [hname, hmatch, hnone]
      | some ch =>
        have hflip : v = Uuid.toText ch ↔ Uuid.toText ch = v := eq_comm
        simp [hname, hmatch, hnone, hflip]

theorem dTag_of_value (hkind : isParameterizedReplaceable row.event.kind = true)
    (hvalue : ∃ t ∈ row.event.tags, t.kind = "d" ∧ t.content ≠ none) :
    ∃ d, row.dTag = some d ∧ ∃ t ∈ row.event.tags, t.kind = "d" ∧ t.content = some d := by
  obtain ⟨t, ht, htd, hsome⟩ := hvalue
  unfold Row.dTag extractDTag
  rw [if_pos hkind]
  cases hfirst : row.event.tags.findSome? fun t => if t.kind = "d" then t.content else none with
  | none =>
    rw [List.findSome?_eq_none_iff] at hfirst
    have hnone := hfirst t ht
    rw [if_pos htd] at hnone
    exact absurd hnone hsome
  | some d =>
    obtain ⟨t', ht', hcontent⟩ := List.exists_of_findSome?_eq_some hfirst
    split_ifs at hcontent with hd
    exact ⟨d, rfl, t', ht', hd, hcontent⟩

end Tags

section Row

variable {f : ReqFilter} {row : Row}

theorem dTag_of_clause {values : List String} (hmem : ('d', values) ∈ f.genericTags)
    (hnip : f.nip33Only = true) (hvalues : values ≠ [])
    (hclause : dTagClause (buildEventQueryFromFilter f row.communityId) row = true) :
    ∃ d ∈ values, row.dTag = some d := by
  have hpushed : (if f.nip33Only then f.tagValues 'd' else none) = some values := by
    rw [if_pos hnip, tagValues_of_mem hmem]
  have honly : (buildEventQueryFromFilter f row.communityId).dTag = onlyValue (some values) := by
    rw [← hpushed]
    rfl
  have hseveral : (buildEventQueryFromFilter f row.communityId).dTags =
      severalValues (some values) := by
    rw [← hpushed]
    rfl
  unfold dTagClause at hclause
  rw [honly, hseveral] at hclause
  match values, hvalues with
  | [d], _ => exact ⟨d, List.mem_cons_self, by simpa [onlyValue] using hclause⟩
  | d :: d' :: rest, _ =>
    simpa [onlyValue, severalValues, List.any_eq_true] using hclause

theorem tag_met_of_admits {key : Char} {values : List String} (hmem : (key, values) ∈ f.genericTags)
    (hpush : tagPushable f key values = true) (hnot : ¬ Overcounted f row)
    (hkinds : ∀ kinds, f.kinds = some kinds → row.event.kind ∈ kinds)
    (hadmits : tagAdmits f row key = true) :
    tagRequirementMet row.stored key values = true := by
  have hvalues : values ≠ [] := by
    rintro rfl
    exact hnot (.noValues key hmem)
  by_contra hrefused
  rw [Bool.not_eq_true] at hrefused
  unfold tagPushable at hpush
  split at hpush
  · obtain ⟨v, rfl⟩ := List.length_eq_one_iff.mp
      (Nat.le_antisymm (of_decide_eq_true hpush) (List.length_pos_iff.mpr hvalues))
    rw [← Bool.not_eq_true, channelRequirementMet_iff, not_or, not_and_or] at hrefused
    obtain ⟨hno, hfallback⟩ := hrefused
    refine hnot (.otherChannel v hmem (fun t ht hkind hv => hno ⟨t, ht, hkind, hv⟩) ?_)
    refine hfallback.imp_left fun hhas => ?_
    push Not at hhas
    exact hhas
  · obtain ⟨v, rfl⟩ := List.length_eq_one_iff.mp
      (Nat.le_antisymm (of_decide_eq_true hpush) (List.length_pos_iff.mpr hvalues))
    rw [← Bool.not_eq_true, tagRequirementMet_iff _ _ _ (by decide)] at hrefused
    refine hnot (.otherCase v hmem fun t ht hkind hv => hrefused ?_)
    exact ⟨v, List.mem_cons_self, t, ht, hkind, hv⟩
  · rw [← Bool.not_eq_true, tagRequirementMet_iff _ _ _ (by decide)] at hrefused
    have hnip : f.nip33Only = true := by simpa [hvalues] using hpush
    obtain ⟨d, hd, hcolumn⟩ := dTag_of_clause hmem hnip hvalues hadmits
    refine hnot (.noDTag values hmem fun t ht hkind => ?_)
    by_contra hsome
    have hparameterized : isParameterizedReplaceable row.event.kind = true := by
      unfold ReqFilter.nip33Only at hnip
      split at hnip
      · rename_i kinds hk
        exact List.all_eq_true.mp (Bool.and_eq_true _ _ ▸ hnip).2 _ (hkinds kinds hk)
      · cases hnip
    obtain ⟨d', hcolumn', t', ht', hkind', hv⟩ := dTag_of_value hparameterized ⟨t, ht, hkind, hsome⟩
    cases hcolumn.symm.trans hcolumn'
    exact hrefused ⟨d, hd, t', ht', hkind', hv⟩
  · rw [← Bool.not_eq_true, tagRequirementMet_iff _ _ _ (by decide)] at hrefused
    exact hnot (.elsewhere values hmem fun t ht hkind v hv hcontent =>
      hrefused ⟨v, hv, t, ht, hkind, hcontent⟩)
  · exact hvalues (by simpa using hpush)

theorem matched_iff_not_overcounted
    (hfields : fieldsWhere (buildEventQueryFromFilter f row.communityId) row = true)
    (hchannel : channelClause (buildEventQueryFromFilter f row.communityId) row = true)
    (hpush : filterFullyPushable f = true) :
    Matched f.toFilter row.stored ↔ ¬ Overcounted f row := by
  constructor
  · intro h hover
    cases hover with
    | noAuthors hnil => exact absurd (h.authors [] hnil) List.not_mem_nil
    | noIds hnil =>
      obtain ⟨id, hid, -⟩ := h.ids [] hnil
      cases hid
    | noValues key hmem =>
      have hmet := h.tags key [] hmem
      rw [tagRequirementMet_nil] at hmet
      cases hmet
    | lateSince s hs hlate =>
      have hle : s ≤ row.event.createdAt := h.since s hs
      have hrow := row.createdAt_le
      omega
    | otherChannel v hmem hno hfallback =>
      rcases (channelRequirementMet_iff _ v).mp (h.tags 'h' [v] hmem) with ⟨t, ht, hkind, hv⟩ | hrow
      · exact hno t ht hkind hv
      · rcases hfallback with ⟨t, ht, hkind⟩ | hother
        · exact hrow.1 t ht hkind
        · exact hother hrow.2
    | otherCase v hmem hno =>
      obtain ⟨w, hw, t, ht, hkind, hcontent⟩ :=
        (tagRequirementMet_iff _ 'p' [v] (by decide)).mp (h.tags 'p' [v] hmem)
      rw [List.mem_singleton.mp hw] at hcontent
      exact hno t ht hkind hcontent
    | noDTag values hmem hno =>
      obtain ⟨d, -, t, ht, hkind, hcontent⟩ :=
        (tagRequirementMet_iff _ 'd' values (by decide)).mp (h.tags 'd' values hmem)
      cases (hno t ht hkind).symm.trans hcontent
    | elsewhere values hmem hno =>
      obtain ⟨v, hv, t, ht, hkind, hcontent⟩ :=
        (tagRequirementMet_iff _ 'e' values (by decide)).mp (h.tags 'e' values hmem)
      exact hno t ht hkind v hv hcontent
  · intro hnot
    have hkinds : ∀ kinds, f.kinds = some kinds → row.event.kind ∈ kinds := by
      intro kinds hk
      have hquery : (buildEventQueryFromFilter f row.communityId).kinds = some kinds := hk
      simp only [fieldsWhere, Bool.and_eq_true, Bool.not_eq_true', and_assoc] at hfields
      obtain ⟨hsome, -, hin, -⟩ := hfields
      have hne : kinds ≠ [] := by
        rintro rfl
        simp [EventQuery.matchesNothing, hquery] at hsome
      simpa [inClause, hquery, hne] using hin
    refine matched_of_fields hfields hchannel ⟨?_, ?_, ?_, ?_⟩
    · intro s hs
      by_contra hlate
      exact hnot (.lateSince s hs (not_le.mp hlate))
    · exact fun hnil => hnot (.noAuthors hnil)
    · exact fun hnil => hnot (.noIds hnil)
    · intro key values hmem hadmits
      simp only [filterFullyPushable, Bool.and_eq_true, List.all_eq_true] at hpush
      exact tag_met_of_admits hmem (hpush.1 (key, values) hmem) hnot hkinds hadmits

end Row

/-! ## The two counts -/

section Counts

variable {f : ReqFilter} {reader : String} {community : CommunityId}
  {channelIds : Option (List Uuid)} {table : List Row}

theorem match_of_countsInQuery (hpush : filterFullyPushable f = true) {row : Row}
    (hcounts : countsInQuery (countQuery f reader community channelIds) row = true) :
    filtersMatch [f.toFilter] row.stored = true ↔ ¬ Overcounted f row := by
  have hquery := countQuery_eq f reader community channelIds
  simp only [countsInQuery, Bool.and_eq_true, and_assoc] at hcounts
  obtain ⟨hsome, -, hwhere⟩ := hcounts
  have hall := countWhere_eq row (q := countQuery f reader community channelIds)
    (by rw [hquery]; rfl)
  rw [hsome, hwhere] at hall
  simp only [Bool.and_self, Bool.true_eq, Bool.and_eq_true, and_assoc, beq_iff_eq] at hall
  obtain ⟨hfields, hcommunity, -, hchannel, -⟩ := hall
  have hsame : row.communityId = community := by
    rw [hcommunity, hquery]
    rfl
  subst hsame
  rw [hquery] at hfields hchannel
  have hiff := matched_iff_not_overcounted hfields hchannel hpush
  rw [← hiff, ← filterMatchOne_iff]
  simp [filtersMatch]

theorem selects_countQuery (hsql : countsInSql f reader = true) (row : Row)
    (hok : (countQuery f reader community channelIds).sqlError = none) :
    selects (countQuery f reader community channelIds) row =
      countsInQuery (countQuery f reader community channelIds) row := by
  have hshared : filterCanMatchSharedGatedKinds f = false := by
    simp only [countsInSql, Bool.and_eq_true, Bool.not_eq_true'] at hsql
    exact hsql.2
  have hgate : sharedGateClause (countQuery f reader community channelIds) row = true := by
    rw [countQuery_eq, hshared]
    rfl
  have hcursor : cursorClause (countQuery f reader community channelIds) row =
      untilClause (countQuery f reader community channelIds) row := by
    refine cursorClause_of_no_cursor ?_
    rw [countQuery_eq]
    rfl
  simp [selects, countsInQuery, queryWhere, countWhere, hok, hgate, hcursor]

theorem queryEvents_fallback {q : EventQuery} (hbefore : q.beforeId = none)
    (hglobal : q.globalOnly = false) :
    queryEvents table (applyCountFallbackLimit q) =
      if q.matchesNothing then .ok []
      else
        match q.sqlError with
        | some e => .error e
        | none => .ok ((((table.filter (queryWhere q)).insertionSort rowLe).drop
          (q.offset.getD 0)).take 5001) := by
  have hlimit : (applyCountFallbackLimit q).limitVal = 5001 := rfl
  have hbefore' : (applyCountFallbackLimit q).beforeId = none := hbefore
  have hglobal' : (applyCountFallbackLimit q).globalOnly = false := hglobal
  unfold queryEvents
  rw [hbefore', hglobal', hlimit]
  rfl

/-- Counting in SQL alone gives the count of the matching candidates exactly when no row that SQL
counts is one of which it asks too little. -/
theorem fast_count_exact_iff (hsql : countsInSql f reader = true)
    (hfew : ∀ rows, queryEvents table
      (applyCountFallbackLimit (countQuery f reader community channelIds)) = .ok rows →
        countFallbackExceeded rows.length = false) :
    countEvents table (countQuery f reader community channelIds) =
        postFilteredCount table f (countQuery f reader community channelIds) ↔
      ∀ row ∈ table, countsInQuery (countQuery f reader community channelIds) row = true →
        ¬ Overcounted f row := by
  have hpush : filterFullyPushable f = true := by
    simp only [countsInSql, Bool.and_eq_true] at hsql
    exact hsql.1.1.1
  have hmatch (row : Row)
      (hcounts : countsInQuery (countQuery f reader community channelIds) row = true) :=
    match_of_countsInQuery hpush hcounts
  have hselects (row : Row)
      (hok : (countQuery f reader community channelIds).sqlError = none) :=
    selects_countQuery hsql row hok
  have hbefore : (countQuery f reader community channelIds).beforeId = none := by
    rw [countQuery_eq]
    rfl
  have hglobal : (countQuery f reader community channelIds).globalOnly = false := by
    rw [countQuery_eq]
    rfl
  have hoffset : (countQuery f reader community channelIds).offset = none := by
    rw [countQuery_eq]
    rfl
  generalize countQuery f reader community channelIds = q at *
  have hpage : queryEvents table _ = _ := queryEvents_fallback hbefore hglobal
  unfold countEvents postFilteredCount
  by_cases hnothing : q.matchesNothing = true
  · rw [if_pos hnothing] at hpage
    rw [if_pos hnothing, hpage]
    refine iff_of_true rfl fun row _ hcounts => ?_
    simp [countsInQuery, hnothing] at hcounts
  · rw [if_neg hnothing] at hpage
    rw [if_neg hnothing]
    cases hok : q.sqlError with
    | some e =>
      rw [hok] at hpage
      rw [hpage]
      refine iff_of_true rfl fun row _ hcounts => ?_
      simp [countsInQuery, hok] at hcounts
    | none =>
      rw [hok] at hpage
      obtain ⟨rows, hrows⟩ : ∃ rows, queryEvents table (applyCountFallbackLimit q) = .ok rows :=
        ⟨_, hpage⟩
      have hshort : rows.length < (applyCountFallbackLimit q).limitVal.toNat := by
        have hle : ¬ (5000 : Int) < rows.length := of_decide_eq_false (hfew rows hrows)
        have hlimit : (applyCountFallbackLimit q).limitVal.toNat = 5001 := rfl
        omega
      have hperm := perm_of_queryEvents hrows hoffset hshort
      have hcounted : table.countP (countWhere q) = (table.filter (countsInQuery q)).length := by
        rw [← List.countP_eq_length_filter]
        refine List.countP_congr fun row _ => ?_
        simp [countsInQuery, hnothing, hok]
      have hsame : table.filter (selects (applyCountFallbackLimit q)) =
          table.filter (countsInQuery q) :=
        List.filter_congr fun row _ => hselects row hok
      rw [hrows, hcounted]
      simp only [Except.map, Except.ok.injEq]
      rw [hperm.countP_eq, hsame, eq_comm, List.countP_eq_length]
      simp only [List.mem_filter, and_imp]
      exact forall_congr' fun row => imp_congr_right fun _ => forall_congr' fun hcounts =>
        hmatch row hcounts

end Counts

/-! ### A channel that is no UUID -/

theorem messages_counted_exactly :
    countsInSql (messagesOf [7]) "a1" = true ∧ ∀ row ∈ [messageIn 7 'f', messageIn 8 'e'],
      countsInQuery (countQuery (messagesOf [7]) "a1" 0 (some [7, 8])) row = true →
        ¬ Overcounted (messagesOf [7]) row := by
  have hsql : countsInSql (messagesOf [7]) "a1" = true := by decide +kernel
  refine ⟨hsql, (fast_count_exact_iff hsql ?_).mp (by decide +kernel)⟩
  intro rows hrows
  have hpage : queryEvents [messageIn 7 'f', messageIn 8 'e'] (applyCountFallbackLimit
      (countQuery (messagesOf [7]) "a1" 0 (some [7, 8]))) = .ok [messageIn 7 'f'] := by
    decide +kernel
  cases hrows.symm.trans hpage
  decide

def messagesOfText (v : String) : ReqFilter :=
  { messagesOf [] with
    genericTags := [('h', [v])]
    id_length := by simp [messagesOf]
    keys_nodup := by simp }

/-- SQL counts the messages of every accessible channel, and none of them matches. -/
theorem text_channel_overcounts :
    countsInSql (messagesOfText "general") "a1" = true ∧
      countEvents [messageIn 7 'f'] (countQuery (messagesOfText "general") "a1" 0 (some [7])) =
        .ok 1 ∧
      postFilteredCount [messageIn 7 'f'] (messagesOfText "general")
        (countQuery (messagesOfText "general") "a1" 0 (some [7])) = .ok 0 := by
  decide +kernel

end Vingilot.Query
