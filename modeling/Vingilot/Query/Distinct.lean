import Mathlib.Algebra.BigOperators.Group.List.Basic
import Mathlib.Data.Finset.Card
import Vingilot.Query.FastCount

/-! # What a `COUNT` counts

The handler adds up the filters' counts. What a filter counts depends on the filters before it,
which may have confirmed the reader's membership of a channel. The sum is the number of distinct
events when each filter counts what it wants and no event is wanted twice.
-/

namespace Vingilot.Query

open Workflow (fromTimestamp asI64)
open Subscription (filtersMatch)

/-! ## The events to count -/

/-- The reader may read the channel: its token allows it, and it is open or the reader is a
member. -/
def mayRead (db : Memberships) (token : Option (List Uuid)) (ch : Uuid) : Bool :=
  tokenAllows token ch && ((db.accessibleCached.getD []).contains ch || db.isMember ch == some true)

def readable (db : Memberships) (token : Option (List Uuid)) (row : Row) : Bool :=
  match row.channelId with
  | some ch => mayRead db token ch
  | none => true

def wantedBy (db : Memberships) (token : Option (List Uuid)) (community : CommunityId)
    (reader : String) (f : ReqFilter) (row : Row) : Bool :=
  row.communityId == community && row.deletedAt.isNone && filtersMatch [f.toFilter] row.stored &&
    readable db token row && eventVisibleToReader row.event reader

structure EventTable where
  rows : List Row
  key_nodup : (rows.map fun row => (row.communityId, row.event.createdAt, row.event.id)).Nodup

theorem EventTable.nodup (table : EventTable) : table.rows.Nodup := table.key_nodup.of_map

def EventTable.matching (table : EventTable) (db : Memberships) (token : Option (List Uuid))
    (community : CommunityId) (reader : String) (filters : List ReqFilter) : Finset Row :=
  (table.rows.filter fun row =>
    filters.any fun f => wantedBy db token community reader f row).toFinset

/-! ## What a filter counts -/

/-- The channel is in the list that the handler holds after the filters `earlier`: the cached one
with what these filters have added to it. -/
def reachable (db : Memberships) (token : Option (List Uuid)) (earlier : List ReqFilter)
    (ch : Uuid) : Bool :=
  tokenAllows token ch && ((db.accessibleCached.getD []).contains ch ||
    (db.isMember ch == some true && earlier.any fun f => extractChannelFromFilter f == some ch))

def inScope (db : Memberships) (token : Option (List Uuid)) (earlier : List ReqFilter)
    (f : ReqFilter) (row : Row) : Bool :=
  match extractChannelFromFilter f with
  | some ch => mayRead db token ch
  | none => row.channelId.all (reachable db token earlier)

/-- SQL alone counts the row. -/
def sqlCounts (f : ReqFilter) (reader : String) (community : CommunityId) (row : Row) : Bool :=
  let q := countQuery f reader community none
  !q.matchesNothing && countWhere q row

def countedBy (db : Memberships) (token : Option (List Uuid)) (community : CommunityId)
    (reader : String) (earlier : List ReqFilter) (f : ReqFilter) (row : Row) : Bool :=
  inScope db token earlier f row &&
    if countsInSql f reader then sqlCounts f reader community row
    else selects (countQuery f reader community none) row && countsRow f reader row

/-- How often the row is counted. -/
def tally (db : Memberships) (token : Option (List Uuid)) (community : CommunityId)
    (reader : String) (earlier : List ReqFilter) : List ReqFilter → Row → Nat
  | [], _ => 0
  | f :: rest, row =>
    (countedBy db token community reader earlier f row).toNat +
      tally db token community reader (earlier ++ [f]) rest row

/-! ## When the count is right -/

/-- Every filter has the property, given the filters before it. -/
def ForEach (p : List ReqFilter → ReqFilter → Prop) : List ReqFilter → List ReqFilter → Prop
  | _, [] => True
  | earlier, f :: rest => p earlier f ∧ ForEach p (earlier ++ [f]) rest

/-- Each filter counts the rows that it wants, and no row is counted twice. -/
structure CountsEach (db : Memberships) (token : Option (List Uuid)) (community : CommunityId)
    (reader : String) (rows : List Row) (filters : List ReqFilter) : Prop where
  each : ForEach (fun earlier f => ∀ row ∈ rows,
    countedBy db token community reader earlier f row = wantedBy db token community reader f row)
    [] filters
  once : ∀ row ∈ rows, tally db token community reader [] filters row ≤ 1

/-- The filter's count keeps the event: the event is stored in the channel that the query is for,
the upper time bound that reaches SQL is not below it, `event_mentions` has its wanted `p` value,
its first `d` value is a wanted one, and a query for more channels than one has its channel. -/
structure Kept (db : Memberships) (token : Option (List Uuid)) (earlier : List ReqFilter)
    (f : ReqFilter) (row : Row) : Prop where
  channel : ∀ ch, extractChannelIdFromFilter f = some ch → row.channelId = some ch
  until_ : ∀ u t, f.until_ = some u → fromTimestamp (asI64 u) = some t → row.createdAt ≤ t
  mentioned : Mentioned f row
  firstD : FirstDWanted f row
  reached : extractChannelFromFilter f = none →
    ∀ ch, row.channelId = some ch → reachable db token earlier ch = true

structure Countable (db : Memberships) (token : Option (List Uuid)) (community : CommunityId)
    (reader : String) (rows : List Row) (filters : List ReqFilter) : Prop where
  once : filters.Pairwise fun f g => ∀ row ∈ rows,
    ¬ (wantedBy db token community reader f row = true ∧
      wantedBy db token community reader g row = true)
  kept : ForEach (fun earlier f => ∀ row ∈ rows,
    wantedBy db token community reader f row = true → Kept db token earlier f row) [] filters
  notOver : ForEach (fun earlier f => countsInSql f reader = true → ∀ row ∈ rows,
    inScope db token earlier f row = true → sqlCounts f reader community row = true →
      ¬ Overcounted f row) [] filters

theorem forEach_imp {p p' : List ReqFilter → ReqFilter → Prop}
    (h : ∀ earlier f, p earlier f → p' earlier f)
    {earlier filters : List ReqFilter} (hall : ForEach p earlier filters) :
    ForEach p' earlier filters := by
  induction filters generalizing earlier with
  | nil => trivial
  | cons f rest ih => exact ⟨h earlier f hall.1, ih hall.2⟩

theorem forEach_and {p p' : List ReqFilter → ReqFilter → Prop} {earlier filters : List ReqFilter} :
    ForEach (fun earlier f => p earlier f ∧ p' earlier f) earlier filters ↔
      ForEach p earlier filters ∧ ForEach p' earlier filters := by
  induction filters generalizing earlier with
  | nil => exact iff_of_true trivial ⟨trivial, trivial⟩
  | cons f rest ih => exact (and_congr_right' ih).trans and_and_and_comm

section OneFilter

variable {db : Memberships} {token : Option (List Uuid)} {community : CommunityId}
  {reader : String} {earlier : List ReqFilter} {f : ReqFilter} {row : Row}

/-! ### One row -/

theorem mayRead_of_reachable {ch : Uuid} (h : reachable db token earlier ch = true) :
    mayRead db token ch = true := by
  simp only [reachable, mayRead, Bool.and_eq_true, Bool.or_eq_true] at h ⊢
  exact ⟨h.1, h.2.imp_right And.left⟩

theorem extractChannelIdFromFilter_of_single {ch : Uuid}
    (hsingle : extractChannelFromFilter f = some ch) : extractChannelIdFromFilter f = some ch := by
  have hmem : ch ∈ f.channels := mem_channels_of_single hsingle
  cases hchannels : f.channels with
  | nil => simp [hchannels] at hmem
  | cons c rest =>
    have hc : c = ch := eq_singleChannel (by simp [hchannels]) hsingle
    simp [extractChannelIdFromFilter, hchannels, hc]

theorem countQuery_fields (row : Row) :
    fieldsWhere (countQuery f reader community none) row =
      fieldsWhere (buildEventQueryFromFilter f community) row := by
  rw [countQuery_eq]
  rfl

theorem countQuery_scope (row : Row) :
    scopeWhere (countQuery f reader community none) row =
      ((row.communityId == community && row.deletedAt.isNone) &&
        channelClause (buildEventQueryFromFilter f community) row &&
        sharedGateClause (countQuery f reader community none) row) := by
  rw [countQuery_eq]
  exact congrArg (· && _) (Bool.and_true _)

theorem sqlCounts_eq (row : Row) :
    sqlCounts f reader community row =
      (fieldsWhere (buildEventQueryFromFilter f community) row &&
        (row.communityId == community && row.deletedAt.isNone) &&
        channelClause (buildEventQueryFromFilter f community) row) := by
  have hids : channelIdsClause (countQuery f reader community none) row = true := by
    rw [countQuery_eq]
    rfl
  have hchannel : channelClause (countQuery f reader community none) row =
      channelClause (buildEventQueryFromFilter f community) row := by
    rw [countQuery_eq]
    rfl
  have hcommunity : (countQuery f reader community none).communityId = community := by
    rw [countQuery_eq]
    rfl
  unfold sqlCounts
  rw [countWhere_eq row (by rw [countQuery_eq]; rfl), countQuery_fields, hids, hchannel,
    hcommunity, Bool.and_true]

/-- What the query of the filter selects in reach, before its read gates. -/
def found (db : Memberships) (token : Option (List Uuid)) (earlier : List ReqFilter)
    (f : ReqFilter) (row : Row) : Prop :=
  inScope db token earlier f row = true ∧
    fieldsWhere (buildEventQueryFromFilter f row.communityId) row = true ∧
    channelClause (buildEventQueryFromFilter f row.communityId) row = true

theorem readable_of_found (h : found db token earlier f row) : readable db token row = true := by
  obtain ⟨hscope, -, hclause⟩ := h
  have hchannel := (channelClause_build f row.communityId row).mp hclause
  unfold inScope at hscope
  unfold readable
  split at hscope
  · rename_i ch hsingle
    rw [hchannel ch (extractChannelIdFromFilter_of_single hsingle)]
    exact hscope
  · cases hrow : row.channelId with
    | none => rfl
    | some ch =>
      rw [hrow, Option.all_some] at hscope
      exact mayRead_of_reachable hscope

/-- A row that the filter matches and the reader may read is found just when it is kept. -/
theorem found_iff_kept (hmatch : Matched f.toFilter row.stored)
    (hreadable : readable db token row = true) :
    found db token earlier f row ↔ Kept db token earlier f row := by
  have hcursor : cursorClause (buildEventQueryFromFilter f row.communityId) row =
      untilClause (buildEventQueryFromFilter f row.communityId) row := cursorClause_of_no_cursor rfl
  constructor
  · rintro ⟨hscope, hfields, hclause⟩
    simp only [fieldsWhere, Bool.and_eq_true, hcursor] at hfields
    obtain ⟨⟨⟨⟨⟨⟨⟨⟨⟨-, hmentions⟩, -⟩, -⟩, -⟩, -⟩, -⟩, -⟩, hdtag⟩, huntil⟩ := hfields
    refine ⟨(channelClause_build f row.communityId row).mp hclause, ?_, ?_, ?_, ?_⟩
    · intro u t hu ht
      have hbound : (buildEventQueryFromFilter f row.communityId).until_ =
          f.until_.bind fun u => fromTimestamp (asI64 u) := rfl
      rw [untilClause, hbound, hu, Option.bind_some, ht] at huntil
      exact of_decide_eq_true huntil
    · intro p hp _
      have honly : (buildEventQueryFromFilter f row.communityId).pTagHex = some p :=
        onlyValue_eq_some.mpr hp
      simpa [mentionsClause, honly] using hmentions
    · intro hnip wanted hwanted
      have hmem := mem_genericTags hwanted
      obtain ⟨v, hv, -⟩ := (tagRequirementMet_iff _ 'd' wanted (by decide)).mp
        (hmatch.tags 'd' wanted hmem)
      exact dTag_of_clause hmem hnip (List.ne_nil_of_mem hv) hdtag
    · intro hnone ch hch
      rw [inScope, hnone, hch] at hscope
      exact hscope
  · intro h
    refine ⟨?_, ?_, (channelClause_build f row.communityId row).mpr h.channel⟩
    · unfold inScope
      split
      · rename_i ch hsingle
        have hrow := h.channel ch (extractChannelIdFromFilter_of_single hsingle)
        rw [readable, hrow] at hreadable
        exact hreadable
      · rename_i hnone
        exact (Option.all_eq_true _ _).mpr (h.reached hnone)
    · refine fieldsWhere_of_matched _ _ hmatch h.mentioned ?_ h.firstD
      unfold untilClause
      split
      · rename_i t ht
        obtain ⟨u, hu, htime⟩ := Option.bind_eq_some_iff.mp ht
        exact decide_eq_true (h.until_ u t hu htime)
      · rfl

theorem wantedBy_iff : wantedBy db token community reader f row = true ↔
    (row.communityId = community ∧ row.deletedAt.isNone = true) ∧ Matched f.toFilter row.stored ∧
      readable db token row = true ∧ eventVisibleToReader row.event reader = true := by
  simp [wantedBy, filtersMatch, filterMatchOne_iff, and_assoc]

theorem sharedGate_visible (hvisible : eventVisibleToReader row.event reader = true) :
    sharedGateClause (countQuery f reader community none) row = true := by
  refine sharedGate_of_visible ?_ hvisible
  rw [countQuery_eq]
  dsimp only
  split_ifs
  · exact .inr rfl
  · exact .inl rfl

theorem countedBy_iff (hlive : row.communityId = community ∧ row.deletedAt.isNone = true) :
    countedBy db token community reader earlier f row = true ↔
      found db token earlier f row ∧ (countsInSql f reader = false →
        Matched f.toFilter row.stored ∧ eventVisibleToReader row.event reader = true) := by
  obtain ⟨rfl, hlive⟩ := hlive
  unfold countedBy found
  cases hpath : countsInSql f reader with
  | true => simp [sqlCounts_eq, hlive]
  | false =>
    simp only [selects_eq, countQuery_fields, countQuery_scope, countsRow, hlive, filtersMatch,
      List.any_cons, List.any_nil, Bool.or_false, Bool.and_eq_true, filterMatchOne_iff,
      beq_self_eq_true, Bool.false_eq_true, if_false, true_and, forall_const]
    constructor
    · rintro ⟨hscope, ⟨hfields, hclause, -⟩, hmatch, hvisible⟩
      exact ⟨⟨hscope, hfields, hclause⟩, hmatch, hvisible⟩
    · rintro ⟨⟨hscope, hfields, hclause⟩, hmatch, hvisible⟩
      exact ⟨hscope, ⟨hfields, hclause, sharedGate_visible hvisible⟩, hmatch, hvisible⟩

/-- The filter counts the row rightly just when it keeps it, if it wants it, and SQL alone does
not count too much. -/
theorem counted_eq_wanted_iff :
    countedBy db token community reader earlier f row = wantedBy db token community reader f row ↔
      (wantedBy db token community reader f row = true → Kept db token earlier f row) ∧
        (countsInSql f reader = true → inScope db token earlier f row = true →
          sqlCounts f reader community row = true → ¬ Overcounted f row) := by
  by_cases hlive : row.communityId = community ∧ row.deletedAt.isNone = true
  · have hwanted := @wantedBy_iff db token community reader f row
    have hcounted := @countedBy_iff db token community reader earlier f row hlive
    have hsql : sqlCounts f reader community row = true ↔
        fieldsWhere (buildEventQueryFromFilter f row.communityId) row = true ∧
          channelClause (buildEventQueryFromFilter f row.communityId) row = true := by
      obtain ⟨rfl, hlive⟩ := hlive
      simp [sqlCounts_eq, hlive]
    have hover (hpath : countsInSql f reader = true) (h : found db token earlier f row) :
        Matched f.toFilter row.stored ↔ ¬ Overcounted f row := by
      have hpush : filterFullyPushable f = true := by
        simp only [countsInSql, Bool.and_eq_true] at hpath
        exact hpath.1.1.1
      exact matched_iff_not_overcounted h.2.1 h.2.2 hpush
    rw [Bool.eq_iff_iff]
    constructor
    · intro hsame
      refine ⟨fun h => ?_, fun hpath hscope hselected => ?_⟩
      · obtain ⟨-, hmatch, hreadable, -⟩ := hwanted.mp h
        exact (found_iff_kept hmatch hreadable).mp (hcounted.mp (hsame.mpr h)).1
      · have hfound : found db token earlier f row := ⟨hscope, hsql.mp hselected⟩
        have hcount := hcounted.mpr ⟨hfound, fun hpath' => by simp [hpath] at hpath'⟩
        exact (hover hpath hfound).mp (hwanted.mp (hsame.mp hcount)).2.1
    · rintro ⟨hkept, hnotOver⟩
      constructor
      · intro h
        obtain ⟨hfound, hread⟩ := hcounted.mp h
        refine hwanted.mpr ⟨hlive, ?_⟩
        cases hpath : countsInSql f reader with
        | true =>
          have hmatch := (hover hpath hfound).mpr (hnotOver hpath hfound.1 (hsql.mpr hfound.2))
          exact ⟨hmatch, readable_of_found hfound, visible_of_countsInSql hpath hmatch⟩
        | false =>
          obtain ⟨hmatch, hvisible⟩ := hread hpath
          exact ⟨hmatch, readable_of_found hfound, hvisible⟩
      · intro h
        obtain ⟨-, hmatch, hreadable, hvisible⟩ := hwanted.mp h
        exact hcounted.mpr ⟨(found_iff_kept hmatch hreadable).mpr (hkept h),
          fun _ => ⟨hmatch, hvisible⟩⟩
  · have hdead : (row.communityId == community && row.deletedAt.isNone) = false := by
      by_contra hall
      exact hlive (by simpa using hall)
    have hsql : sqlCounts f reader community row = false := by
      rw [sqlCounts_eq, hdead, Bool.and_false, Bool.false_and]
    have hselects : selects (countQuery f reader community none) row = false := by
      rw [selects_eq, countQuery_scope, hdead, Bool.false_and, Bool.false_and, Bool.and_false]
    have hwanted : wantedBy db token community reader f row = false := by
      simp only [wantedBy, hdead, Bool.false_and]
    simp [countedBy, hsql, hselects, hwanted]

end OneFilter

/-! ## The handler -/

section Handler

variable {q : EventQuery} {n : Nat}

theorem countEvents_ok {table : List Row} (hok : countEvents table q = .ok n) :
    n = table.countP fun row => !q.matchesNothing && countWhere q row := by
  unfold countEvents at hok
  split at hok
  · rename_i hnothing
    cases hok
    simp [hnothing]
  · rename_i hsome
    split at hok <;> cases hok
    simp [hsome]

/-- What `countWith` counts with the channels that it is given. -/
theorem countWith_ok {table : List Row} {f : ReqFilter} {reader : String}
    (hoffset : q.offset = none) (hok : countWith table f reader q = .ok n) :
    n = table.countP fun row =>
      if countsInSql f reader then !q.matchesNothing && countWhere q row
      else selects q row && countsRow f reader row := by
  unfold countWith at hok
  split at hok
  · rename_i hsql
    simp only [hsql, if_true]
    split at hok
    · rename_i hcount
      cases hok
      exact countEvents_ok hcount
    · cases hok
  · rename_i hsql
    simp only [hsql]
    split at hok
    · cases hok
    rename_i rows hrows
    split at hok
    · cases hok
    rename_i hfew
    cases hok
    have hshort : rows.length < (applyCountFallbackLimit q).limitVal.toNat := by
      have hexceeded : countFallbackExceeded rows.length = false := by simpa using hfew
      have hle : ¬ (5000 : Int) < rows.length := of_decide_eq_false hexceeded
      have hlimit : (applyCountFallbackLimit q).limitVal.toNat = 5001 := rfl
      omega
    have hperm := perm_of_queryEvents hrows hoffset hshort
    rw [hperm.countP_eq, List.countP_filter]
    apply List.countP_congr
    intro row _
    have hselects : selects (applyCountFallbackLimit q) row = selects q row := rfl
    simp [hselects, and_comm]

variable {db : Memberships} {token : Option (List Uuid)} {community : CommunityId}
  {reader : String} {earlier : List ReqFilter} {f : ReqFilter} {accessible : List Uuid}
  {table : List Row}

def Reaches (db : Memberships) (token : Option (List Uuid)) (earlier : List ReqFilter)
    (accessible : List Uuid) : Prop :=
  ∀ ch, ch ∈ accessible ↔ reachable db token earlier ch = true

theorem reaches_narrow (db : Memberships) (token : Option (List Uuid)) :
    Reaches db token [] (narrowToToken token (db.accessibleCached.getD [])) := by
  intro ch
  simp [narrowToToken, reachable, and_comm]

theorem reachable_snoc (ch : Uuid) : reachable db token (earlier ++ [f]) ch = true ↔
    reachable db token earlier ch = true ∨
      extractChannelFromFilter f = some ch ∧ tokenAllows token ch = true ∧
        db.isMember ch = some true := by
  simp only [reachable, List.any_append, List.any_cons, List.any_nil, Bool.or_false,
    Bool.and_eq_true, Bool.or_eq_true, beq_iff_eq]
  tauto

theorem resolve_reaches (hreach : Reaches db token earlier accessible) {ch : Uuid}
    (hsingle : extractChannelFromFilter f = some ch) :
    match resolveRequestLocalAccess accessible ch (tokenAllows token ch)
        (if accessible.contains ch then none else db.isMember ch) with
    | some repaired => Reaches db token (earlier ++ [f]) repaired ∧ mayRead db token ch = true
    | none => Reaches db token (earlier ++ [f]) accessible ∧ mayRead db token ch = false := by
  have hother (hnot : reachable db token earlier ch = true ∨
      ¬ (tokenAllows token ch = true ∧ db.isMember ch = some true)) :
      Reaches db token (earlier ++ [f]) accessible := by
    intro c
    rw [hreach c, reachable_snoc, hsingle, Option.some.injEq]
    refine (or_iff_left_of_imp ?_).symm
    rintro ⟨rfl, hadded⟩
    exact hnot.resolve_right (not_not.mpr hadded)
  unfold resolveRequestLocalAccess
  by_cases hallows : tokenAllows token ch = true
  · by_cases hmem : ch ∈ accessible
    · have hreachable := (hreach ch).mp hmem
      simp only [hallows, List.contains_iff_mem, hmem, Bool.not_true, Bool.false_eq_true, if_false,
        if_true]
      exact ⟨hother (.inl hreachable), mayRead_of_reachable hreachable⟩
    · have hnot : ¬ (db.accessibleCached.getD []).contains ch = true := fun hcached =>
        hmem ((hreach ch).mpr (by simp only [reachable, hallows, hcached]; rfl))
      simp only [hallows, List.contains_iff_mem, hmem, Bool.not_true, Bool.false_eq_true, if_false]
      have hdeny (hmember : db.isMember ch ≠ some true) :
          Reaches db token (earlier ++ [f]) accessible ∧ mayRead db token ch = false := by
        refine ⟨hother (.inr fun h => hmember h.2), ?_⟩
        simpa [mayRead, hallows, hmember] using hnot
      cases hmember : db.isMember ch with
      | none => exact hdeny (by simp [hmember])
      | some member =>
        cases member with
        | false => exact hdeny (by simp [hmember])
        | true =>
          refine ⟨fun c => ?_, by simp [mayRead, hallows, hmember]⟩
          rw [List.mem_append, hreach c, reachable_snoc, hsingle, List.mem_singleton,
            Option.some.injEq]
          refine or_congr_right ⟨?_, fun h => h.1.symm⟩
          rintro rfl
          exact ⟨rfl, hallows, hmember⟩
  · simp only [hallows, Bool.not_false, if_true, mayRead, Bool.false_and, and_true]
    exact hother (.inr fun h => hallows h.1)

theorem countWith_of_map {table : List Row} {repaired accessible' : List Uuid}
    (h : ((countWith table f reader q).map fun n => (repaired, n)) = .ok (accessible', n)) :
    countWith table f reader q = .ok n ∧ repaired = accessible' := by
  cases hcount : countWith table f reader q with
  | error e =>
    rw [hcount] at h
    cases h
  | ok m =>
    rw [hcount] at h
    cases h
    exact ⟨rfl, rfl⟩

theorem countQuery_none :
    countQuery f reader community none =
      withSharedGate f reader (buildEventQueryFromFilter f community) := by
  unfold countQuery withSharedGate
  split_ifs <;> rfl

theorem where_channelIds (q : EventQuery) (ids : List Uuid) (row : Row) :
    (!q.matchesNothing && countWhere { q with channelIds := some ids } row) =
        (inAccessible ids row && (!q.matchesNothing && countWhere { q with channelIds := none } row)) ∧
      selects { q with channelIds := some ids } row =
        (inAccessible ids row && selects { q with channelIds := none } row) := by
  have hids : channelIdsClause { q with channelIds := some ids } row = inAccessible ids row := rfl
  cases hin : inAccessible ids row with
  | true =>
    have hsame : channelIdsClause { q with channelIds := some ids } row =
        channelIdsClause { q with channelIds := none } row := hids.trans hin
    simp only [selects, queryWhere, countWhere, commonWhere, hsame, Bool.true_and]
    exact ⟨rfl, rfl⟩
  | false =>
    simp only [selects, queryWhere, countWhere, commonWhere, hids, hin, Bool.and_false,
      Bool.false_and, and_self]

/-- One filter adds the rows that it counts, and hands its channel on. -/
theorem countFilter_ok {accessible' : List Uuid} (hreach : Reaches db token earlier accessible)
    (hok : countFilter table db token community reader accessible f = .ok (accessible', n)) :
    Reaches db token (earlier ++ [f]) accessible' ∧
      n = table.countP (countedBy db token community reader earlier f) := by
  unfold countFilter at hok
  split at hok
  · rename_i ch hsingle
    have hresolve := resolve_reaches hreach hsingle
    dsimp only at hok
    split at hok
    · cases hok
    split at hok
    · rename_i hnone
      rw [hnone] at hresolve
      cases hok
      refine ⟨hresolve.1, (List.countP_eq_zero.mpr ?_).symm⟩
      intro row _
      simp [countedBy, inScope, hsingle, hresolve.2]
    · rename_i repaired hrepaired
      rw [hrepaired] at hresolve
      obtain ⟨hcount, rfl⟩ := countWith_of_map hok
      rw [← countQuery_none] at hcount
      refine ⟨hresolve.1, (countWith_ok (by rw [countQuery_eq]; rfl) hcount).trans ?_⟩
      refine List.countP_congr fun row _ => ?_
      simp [countedBy, inScope, hsingle, hresolve.2, sqlCounts]
  · rename_i hsingle
    obtain ⟨hcount, rfl⟩ := countWith_of_map hok
    have hreach' : Reaches db token (earlier ++ [f]) accessible := by
      intro ch
      rw [hreach ch, reachable_snoc, hsingle]
      simp
    refine ⟨hreach', (countWith_ok (by rw [← countQuery_none, countQuery_eq]; rfl) hcount).trans ?_⟩
    refine List.countP_congr fun row _ => ?_
    have hscope : inScope db token earlier f row = inAccessible accessible row := by
      unfold inScope inAccessible
      rw [hsingle]
      cases row.channelId with
      | none => rfl
      | some ch =>
        rw [Bool.eq_iff_iff]
        exact (hreach ch).symm.trans List.contains_iff_mem.symm
    obtain ⟨hwhere, hselects⟩ :=
      where_channelIds (withSharedGate f reader (buildEventQueryFromFilter f community))
        accessible row
    rw [countedBy, hscope]
    unfold sqlCounts countQuery
    cases hpath : countsInSql f reader with
    | true =>
      simp only [if_true]
      exact iff_of_eq (congrArg (· = true) hwhere)
    | false =>
      simp only [Bool.false_eq_true, if_false, hselects, Bool.and_assoc]

theorem countP_eq_sum (p : Row → Bool) (rows : List Row) :
    rows.countP p = (rows.map fun row => (p row).toNat).sum := by
  induction rows with
  | nil => rfl
  | cons row rows ih =>
    rw [List.countP_cons, ih, List.map_cons, List.sum_cons, Nat.add_comm]
    cases p row <;> rfl

theorem countFilters_ok {filters : List ReqFilter} (hreach : Reaches db token earlier accessible)
    {total : Nat}
    (hok : countFilters table db token community reader accessible total filters = .ok n) :
    n = total + (table.map (tally db token community reader earlier filters)).sum := by
  induction filters generalizing accessible earlier total with
  | nil =>
    cases hok
    simp [tally]
  | cons f rest ih =>
    simp only [countFilters] at hok
    split at hok
    · cases hok
    rename_i accessible' count hfilter
    obtain ⟨hreach', rfl⟩ := countFilter_ok hreach hfilter
    rw [ih hreach' hok, Nat.add_assoc, countP_eq_sum, ← List.sum_map_add]
    rfl

end Handler

/-! ## All filters -/

section Total

variable {db : Memberships} {token : Option (List Uuid)} {community : CommunityId}
  {reader : String} {rows : List Row} {filters earlier : List ReqFilter} {row : Row}

theorem countP_le_one_iff {p : ReqFilter → Bool} :
    filters.countP p ≤ 1 ↔ filters.Pairwise fun f g => ¬ (p f = true ∧ p g = true) := by
  induction filters with
  | nil => simp
  | cons f rest ih =>
    rw [List.countP_cons, List.pairwise_cons, ← ih]
    cases hf : p f with
    | false => simp
    | true =>
      simp only [if_true, true_and, Bool.not_eq_true]
      have hzero : rest.countP p = 0 ↔ ∀ g ∈ rest, p g = false := by
        simp [List.countP_eq_zero]
      rw [← hzero]
      omega

theorem tally_of_each (hrow : row ∈ rows)
    (h : ForEach (fun earlier f => ∀ row ∈ rows,
      countedBy db token community reader earlier f row = wantedBy db token community reader f row)
      earlier filters) :
    tally db token community reader earlier filters row =
      filters.countP fun f => wantedBy db token community reader f row := by
  induction filters generalizing earlier with
  | nil => rfl
  | cons f rest ih =>
    rw [tally, h.1 row hrow, ih h.2, List.countP_cons, Nat.add_comm]
    cases wantedBy db token community reader f row <;> rfl

theorem countsEach_iff : CountsEach db token community reader rows filters ↔
    Countable db token community reader rows filters := by
  have heach : ForEach (fun earlier f => ∀ row ∈ rows,
      countedBy db token community reader earlier f row =
        wantedBy db token community reader f row) [] filters ↔
      ForEach (fun earlier f => ∀ row ∈ rows,
        wantedBy db token community reader f row = true → Kept db token earlier f row) [] filters ∧
      ForEach (fun earlier f => countsInSql f reader = true → ∀ row ∈ rows,
        inScope db token earlier f row = true → sqlCounts f reader community row = true →
          ¬ Overcounted f row) [] filters := by
    rw [← forEach_and]
    constructor
    · refine forEach_imp fun earlier f hsame => ⟨fun row hrow => ?_, fun hpath row hrow => ?_⟩
      · exact (counted_eq_wanted_iff.mp (hsame row hrow)).1
      · exact (counted_eq_wanted_iff.mp (hsame row hrow)).2 hpath
    · refine forEach_imp fun earlier f h row hrow => counted_eq_wanted_iff.mpr ?_
      exact ⟨h.1 row hrow, fun hpath => h.2 hpath row hrow⟩
  have honce (h : ForEach (fun earlier f => ∀ row ∈ rows,
      countedBy db token community reader earlier f row =
        wantedBy db token community reader f row) [] filters) :
      (∀ row ∈ rows, tally db token community reader [] filters row ≤ 1) ↔
        filters.Pairwise fun f g => ∀ row ∈ rows,
          ¬ (wantedBy db token community reader f row = true ∧
            wantedBy db token community reader g row = true) := by
    have hrow : (∀ row ∈ rows, tally db token community reader [] filters row ≤ 1) ↔
        ∀ row ∈ rows, filters.Pairwise fun f g =>
          ¬ (wantedBy db token community reader f row = true ∧
            wantedBy db token community reader g row = true) :=
      forall₂_congr fun row hrow => by rw [tally_of_each hrow h, countP_le_one_iff]
    rw [hrow]
    simp only [List.pairwise_iff_forall_sublist]
    exact ⟨fun hall f g hsub row hrow => hall row hrow hsub,
      fun hall row hrow f g hsub => hall hsub row hrow⟩
  constructor
  · rintro ⟨hsame, htwice⟩
    obtain ⟨hkept, hnotOver⟩ := heach.mp hsame
    exact ⟨(honce hsame).mp htwice, hkept, hnotOver⟩
  · rintro ⟨hdisjoint, hkept, hnotOver⟩
    have hsame := heach.mpr ⟨hkept, hnotOver⟩
    exact ⟨hsame, (honce hsame).mpr hdisjoint⟩

theorem card_of_countsEach {table : EventTable}
    (h : CountsEach db token community reader table.rows filters) :
    (table.rows.map (tally db token community reader [] filters)).sum =
      (table.matching db token community reader filters).card := by
  rw [EventTable.matching, List.toFinset_card_of_nodup (table.nodup.filter _),
    ← List.countP_eq_length_filter, countP_eq_sum]
  refine congrArg List.sum (List.map_congr_left fun row hrow => ?_)
  have hle := h.once row hrow
  rw [tally_of_each hrow h.each] at hle ⊢
  cases hany : filters.any fun f => wantedBy db token community reader f row with
  | false =>
    rw [Bool.toNat_false, List.countP_eq_zero]
    exact fun f hf hwanted => List.any_eq_false.mp hany f hf hwanted
  | true =>
    obtain ⟨f, hf, hwanted⟩ := List.any_eq_true.mp hany
    have hpos : 0 < filters.countP fun f => wantedBy db token community reader f row :=
      List.countP_pos_iff.mpr ⟨f, hf, hwanted⟩
    rw [Bool.toNat_true]
    omega

end Total

/-- The answer is the sum over the stored events of how often each is counted. Each filter counts
just the events that it wants, and no event is counted twice, under the condition and only then.
The answer is then the number of distinct events that match some filter, are in reach and are
visible. -/
theorem count_is_distinct_events (filters : List ReqFilter) (conn : Connection) (db : Memberships)
    (table : EventTable) (ctx : AuthContext) (hauth : conn.auth = some ctx) (n : Nat)
    (hcount : handleCount filters conn db table.rows = .ok n) :
    n = (table.rows.map
      (tally db ctx.channelIds conn.community ctx.pubkey [] filters)).sum ∧
    (CountsEach db ctx.channelIds conn.community ctx.pubkey table.rows filters ↔
      Countable db ctx.channelIds conn.community ctx.pubkey table.rows filters) ∧
    (Countable db ctx.channelIds conn.community ctx.pubkey table.rows filters →
      n = (table.matching db ctx.channelIds conn.community ctx.pubkey filters).card) := by
  have hn : n = (table.rows.map
      (tally db ctx.channelIds conn.community ctx.pubkey [] filters)).sum := by
    unfold handleCount at hcount
    simp only [hauth] at hcount
    split at hcount
    · cases hcount
    split at hcount
    · cases hcount
    rename_i ids hids
    have hreach : Reaches db ctx.channelIds [] (narrowToToken ctx.channelIds ids) := by
      have h := reaches_narrow db ctx.channelIds
      rwa [hids] at h
    rw [countFilters_ok hreach hcount, Nat.zero_add]
  refine ⟨hn, countsEach_iff, fun hcountable => ?_⟩
  rw [hn, card_of_countsEach (countsEach_iff.mpr hcountable)]

def twoChannels : EventTable := ⟨[messageIn 7 'f', messageIn 8 'e'], by decide +kernel⟩

def bothReadable : Memberships := ⟨some [7, 8], fun _ => some true⟩

/-- One message in each of two channels, and a filter for each of the channels. -/
theorem two_channels_counted :
    Countable bothReadable none 0 "a1" twoChannels.rows [messagesOf [7], messagesOf [8]] ∧
      2 = (twoChannels.matching bothReadable none 0 "a1" [messagesOf [7], messagesOf [8]]).card := by
  have hcount : handleCount [messagesOf [7], messagesOf [8]] readerConnection bothReadable
      twoChannels.rows = .ok 2 := by
    decide +kernel
  obtain ⟨-, hiff, hcard⟩ := count_is_distinct_events [messagesOf [7], messagesOf [8]]
    readerConnection bothReadable twoChannels ⟨"a1", [], none⟩ rfl 2 hcount
  have heach : CountsEach bothReadable none 0 "a1" twoChannels.rows
      [messagesOf [7], messagesOf [8]] :=
    ⟨⟨by decide +kernel, by decide +kernel, trivial⟩, by decide +kernel⟩
  exact ⟨hiff.mp heach, hcard (hiff.mp heach)⟩

/-- The same filter twice counts its event twice, and a filter for two channels counts one of
them. -/
theorem count_not_distinct :
    (handleCount [messagesOf [7], messagesOf [7]] readerConnection bothReadable twoChannels.rows =
        .ok 2 ∧
      (twoChannels.matching bothReadable none 0 "a1" [messagesOf [7], messagesOf [7]]).card = 1) ∧
    (handleCount [messagesOf [7, 8]] readerConnection bothReadable twoChannels.rows = .ok 1 ∧
      (twoChannels.matching bothReadable none 0 "a1" [messagesOf [7, 8]]).card = 2) := by
  refine ⟨⟨?_, ?_⟩, ?_, ?_⟩ <;> decide +kernel

end Vingilot.Query
