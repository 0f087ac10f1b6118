import Vingilot.Query.Params

/-! # What the pushed-down conditions keep

A filter's query must be wider than `filters_match`, which every returned row still has to
pass. Each field of the filter has its own rule.
-/

namespace Vingilot.Query

open Workflow (fromTimestamp asI64 nanos)
open Subscription (filterMatchOne filtersMatch tagRequirementMet)

/-! ## What a match says, field by field -/

def selects (q : EventQuery) (row : Row) : Bool := !q.matchesNothing && queryWhere q row

/-- The fields of `filter_match_one`. -/
structure Matched (f : Filter) (ev : StoredEvent) : Prop where
  kinds : ∀ kinds, f.kinds = some kinds → ev.event.kind ∈ kinds
  authors : ∀ authors, f.authors = some authors → ev.event.pubkey ∈ authors
  since : ∀ s, f.since = some s → s ≤ ev.event.createdAt
  until_ : ∀ u, f.until_ = some u → ev.event.createdAt ≤ u
  ids : ∀ ids, f.ids = some ids → ∃ id ∈ ids, id.toList <+: ev.event.id.toList
  tags : ∀ key wanted, (key, wanted) ∈ f.genericTags → tagRequirementMet ev key wanted = true

theorem filterMatchOne_iff (f : Filter) (ev : StoredEvent) :
    filterMatchOne f ev = true ↔ Matched f ev := by
  simp only [filterMatchOne, Bool.and_eq_true, List.all_eq_true, and_assoc]
  constructor
  · rintro ⟨hk, ha, hs, hu, hi, ht⟩
    refine ⟨fun _ h => ?_, fun _ h => ?_, fun _ h => ?_, fun _ h => ?_, fun _ h => ?_,
      fun key wanted h => ht (key, wanted) h⟩
    · simpa [h] using hk
    · simpa [h] using ha
    · simpa [h] using hs
    · simpa [h] using hu
    · simpa [h] using hi
  · intro h
    refine ⟨?_, ?_, ?_, ?_, ?_, fun kv hkv => h.tags kv.1 kv.2 hkv⟩
    · cases hf : f.kinds with
      | none => rfl
      | some kinds => simpa using h.kinds kinds hf
    · cases hf : f.authors with
      | none => rfl
      | some authors => simpa using h.authors authors hf
    · cases hf : f.since with
      | none => rfl
      | some s => simpa using h.since s hf
    · cases hf : f.until_ with
      | none => rfl
      | some u => simpa using h.until_ u hf
    · cases hf : f.ids with
      | none => rfl
      | some ids => simpa using h.ids ids hf

theorem mem_genericTags {f : ReqFilter} {key : Char} {values : List String}
    (h : f.tagValues key = some values) : (key, values) ∈ f.genericTags := by
  obtain ⟨l₁, l₂, hsplit, -⟩ := List.lookup_eq_some_iff.mp h
  rw [hsplit]
  simp

theorem tagRequirementMet_iff (ev : StoredEvent) (key : Char) (wanted : List String)
    (hkey : key ≠ 'h') :
    tagRequirementMet ev key wanted = true ↔
      ∃ v ∈ wanted, ∃ t ∈ ev.event.tags, t.kind = String.singleton key ∧ t.content = some v := by
  have hne : ¬ String.singleton key = "h" := by
    intro h
    have hchars : (String.singleton key).toList = "h".toList := by rw [h]
    simp at hchars
    exact hkey hchars
  simp [tagRequirementMet, hne]

/-! ## One clause at a time -/

variable {n : Nat}

theorem asI64_of_lt (h : n < 2 ^ 63) : asI64 n = n := by
  unfold asI64
  rw [Int.bmod_eq_of_le] <;> omega

theorem nanos_le_nanos {a b : Int} : nanos a ≤ nanos b ↔ a ≤ b := by
  unfold nanos
  omega

theorem fromTimestamp_asI64 {t : Int} (hn : n < 2 ^ 63) (h : fromTimestamp (asI64 n) = some t) :
    t = nanos n := by
  rw [asI64_of_lt hn] at h
  unfold fromTimestamp at h
  split at h
  · exact (Option.some.inj h).symm
  · cases h

theorem fromTimestamp_of_le (h : n ≤ 8210266876799) : fromTimestamp (asI64 n) = some (nanos n) := by
  have hfits : n < 2 ^ 63 := by omega
  have hlow : (-8334601228800 : Int) ≤ n := by omega
  have hhigh : (n : Int) ≤ 8210266876799 := by omega
  rw [asI64_of_lt hfits]
  unfold fromTimestamp
  exact if_pos ⟨hlow, hhigh⟩

variable {values : Option (List String)}

theorem onlyValue_eq_some {v : String} : onlyValue values = some v ↔ values = some [v] := by
  cases values with
  | none => simp [onlyValue]
  | some vs =>
    simp only [onlyValue, Option.bind_some, Option.some.injEq]
    constructor
    · intro h
      split at h
      · rename_i hlen
        obtain ⟨w, rfl⟩ := List.length_eq_one_iff.mp hlen
        simpa using h
      · cases h
    · rintro rfl
      simp

theorem severalValues_eq_some {vs : List String} :
    severalValues values = some vs ↔ values = some vs ∧ 1 < vs.length := by
  cases values with
  | none => simp [severalValues]
  | some ws =>
    simp only [severalValues, Option.bind_some, Option.some.injEq]
    constructor
    · intro h
      split at h
      · cases h
        exact ⟨rfl, by assumption⟩
      · cases h
    · rintro ⟨rfl, hlen⟩
      simp [hlen]

theorem nonemptyValues_eq_some {vs : List String} :
    nonemptyValues values = some vs ↔ values = some vs ∧ vs ≠ [] := by
  cases values with
  | none => simp [nonemptyValues]
  | some ws =>
    simp only [nonemptyValues, Option.bind_some, Option.some.injEq]
    constructor
    · intro h
      split at h
      · cases h
      · rename_i hne
        cases h
        exact ⟨rfl, by simpa using hne⟩
    · rintro ⟨rfl, hne⟩
      simp [hne]

section Clauses

variable {f : ReqFilter} {row : Row} (channel : Option Uuid) (community : CommunityId)

theorem kinds_kept (h : Matched f.toFilter row.stored) : inClause f.kinds row.event.kind = true := by
  unfold inClause
  cases hk : f.kinds with
  | none => rfl
  | some kinds =>
    have hmem := h.kinds kinds hk
    simp only [Bool.or_eq_true, List.contains_iff_mem]
    exact .inr hmem

theorem pubkey_kept (h : Matched f.toFilter row.stored) :
    pubkeyClause (filterToQueryParams f channel community) row = true := by
  unfold pubkeyClause
  split
  · rename_i pk hpk
    have hauthors := h.authors [pk] (onlyValue_eq_some.mp hpk)
    simpa [Row.stored] using hauthors
  · rfl

theorem authors_kept (h : Matched f.toFilter row.stored) :
    inClause (severalValues f.authors) row.event.pubkey = true := by
  unfold inClause
  split
  · rename_i values hvalues
    have hmem := h.authors values (severalValues_eq_some.mp hvalues).1
    simp only [Bool.or_eq_true, List.contains_iff_mem]
    exact .inr hmem
  · rfl

theorem ids_kept (h : Matched f.toFilter row.stored) :
    inClause (nonemptyValues f.ids) row.event.id = true := by
  unfold inClause
  split
  · rename_i values hvalues
    have hids := (nonemptyValues_eq_some.mp hvalues).1
    obtain ⟨id, hid, hstarts⟩ := h.ids values hids
    have hlen : id.toList.length = row.event.id.toList.length := by
      have hid_length := f.id_length values hids id hid
      have hrow_length := row.id_length
      simp only [String.length_toList]
      omega
    have heq : id = row.event.id := String.toList_inj.mp (hstarts.eq_of_length hlen)
    simp only [Bool.or_eq_true, List.contains_iff_mem]
    exact .inr (heq ▸ hid)
  · rfl

theorem eTags_kept (h : Matched f.toFilter row.stored) :
    eTagsClause (filterToQueryParams f channel community) row = true := by
  unfold eTagsClause
  split
  · rename_i values hvalues
    have he := mem_genericTags (nonemptyValues_eq_some.mp hvalues).1
    obtain ⟨v, hv, t, ht, hkind, hcontent⟩ :=
      (tagRequirementMet_iff _ 'e' values (by decide)).mp (h.tags 'e' values he)
    have hvalue : v ∈ t.values := List.mem_of_mem_head? hcontent
    have htag : tagsContain row.event.tags "e" v = true := by
      apply List.any_eq_true.mpr
      refine ⟨t, ht, ?_⟩
      simp only [Bool.and_eq_true, List.contains_iff_mem, List.mem_cons]
      exact ⟨.inl hkind.symm, .inr hvalue⟩
    simp only [Bool.or_eq_true, List.any_eq_true]
    exact .inr ⟨v, hv, htag⟩
  · rfl

/-- `event_mentions` has the `p` value that the filter asks for, when the event has it. -/
def Mentioned (f : ReqFilter) (row : Row) : Prop :=
  ∀ p, f.tagValues 'p' = some [p] → asciiLower p ∈ pKeys row.event → asciiLower p ∈ row.mentions

theorem mentions_kept (h : Matched f.toFilter row.stored) (hmentioned : Mentioned f row) :
    mentionsClause (filterToQueryParams f channel community) row = true := by
  unfold mentionsClause
  split
  · rename_i p hp
    have honly := onlyValue_eq_some.mp hp
    obtain ⟨v, hv, t, ht, hkind, hcontent⟩ :=
      (tagRequirementMet_iff _ 'p' [p] (by decide)).mp (h.tags 'p' [p] (mem_genericTags honly))
    obtain rfl := List.mem_singleton.mp hv
    refine List.contains_iff_mem.mpr (hmentioned v honly (List.mem_filterMap.mpr ⟨t, ht, ?_⟩))
    have hp : t.kind = "p" := hkind
    simp [hp, hcontent]
  · rfl

theorem since_kept (h : Matched f.toFilter row.stored) :
    sinceClause (filterToQueryParams f channel community) row = true := by
  unfold sinceClause
  split
  · rename_i t ht
    obtain ⟨s, hs, htime⟩ := Option.bind_eq_some_iff.mp ht
    have hle := h.since s hs
    have hrow := row.createdAt_le
    simp only [Row.stored] at hle
    have heq := fromTimestamp_asI64 (by omega) htime
    simp only [decide_eq_true_eq, heq, Row.createdAt, nanos_le_nanos]
    omega
  · rfl

/-- The upper time bound reaches SQL as it is, or not at all. A bound of `2^63` and more wraps. -/
def UntilKept (f : ReqFilter) : Prop :=
  ∀ u t, f.until_ = some u → fromTimestamp (asI64 u) = some t → t = nanos u

theorem until_kept (h : Matched f.toFilter row.stored) (hkept : UntilKept f) :
    untilClause (filterToQueryParams f channel community) row = true := by
  unfold untilClause
  split
  · rename_i t ht
    obtain ⟨u, hu, htime⟩ := Option.bind_eq_some_iff.mp ht
    have hle := h.until_ u hu
    simp only [Row.stored] at hle
    have heq := hkept u t hu htime
    simp only [decide_eq_true_eq, heq, Row.createdAt, nanos_le_nanos]
    omega
  · rfl

/-- The column's `d` value is among the wanted ones whenever the filter pushes them. -/
def FirstDWanted (f : ReqFilter) (row : Row) : Prop :=
  f.nip33Only = true → ∀ wanted, f.tagValues 'd' = some wanted → ∃ d ∈ wanted, row.dTag = some d

theorem dTag_kept (hd : FirstDWanted f row) :
    dTagClause (filterToQueryParams f channel community) row = true := by
  have hvalues : ∀ values, (if f.nip33Only then f.tagValues 'd' else none) = some values →
      ∃ d ∈ values, row.dTag = some d := by
    intro values h
    split at h
    · exact hd (by assumption) values h
    · cases h
  unfold dTagClause
  split
  · rename_i d hdTag
    obtain ⟨d', hd', hrow⟩ := hvalues [d] (onlyValue_eq_some.mp hdTag)
    rw [List.mem_singleton.mp hd'] at hrow
    simpa using hrow
  · rename_i ds _ hds
    obtain ⟨d, hd, hrow⟩ := hvalues ds (severalValues_eq_some.mp hds).1
    simp only [Bool.or_eq_true, List.any_eq_true, beq_iff_eq]
    exact .inr ⟨d, hd, hrow⟩
  · rfl

theorem not_matchesNothing (h : Matched f.toFilter row.stored) :
    (filterToQueryParams f channel community).matchesNothing = false := by
  have hkinds : f.kinds ≠ some [] := fun hk => by simpa using h.kinds [] hk
  have hauthors : severalValues f.authors ≠ some [] := fun ha =>
    absurd (severalValues_eq_some.mp ha).2 (by simp)
  have hids : nonemptyValues f.ids ≠ some [] := fun hi => (nonemptyValues_eq_some.mp hi).2 rfl
  have hetags : nonemptyValues (f.tagValues 'e') ≠ some [] := fun he =>
    (nonemptyValues_eq_some.mp he).2 rfl
  simp only [EventQuery.matchesNothing, filterToQueryParams, Bool.or_eq_false_iff, beq_eq_false_iff_ne]
  exact ⟨⟨⟨hkinds, hauthors⟩, hids⟩, hetags⟩

end Clauses

/-! ## The whole query -/

/-- The clauses that come from the filter's fields other than `#h`. -/
def fieldsWhere (q : EventQuery) (row : Row) : Bool :=
  !q.matchesNothing && mentionsClause q row && inClause q.kinds row.event.kind &&
    pubkeyClause q row && inClause q.authors row.event.pubkey && inClause q.ids row.event.id &&
    eTagsClause q row && sinceClause q row && dTagClause q row && cursorClause q row

def scopeWhere (q : EventQuery) (row : Row) : Bool :=
  row.communityId == q.communityId && row.deletedAt.isNone && channelClause q row &&
    channelIdsClause q row && sharedGateClause q row

theorem selects_eq (q : EventQuery) (row : Row) :
    selects q row = (fieldsWhere q row && scopeWhere q row) := by
  unfold selects queryWhere commonWhere fieldsWhere scopeWhere
  ac_rfl

theorem cursorClause_of_no_cursor {q : EventQuery} {row : Row} (h : q.beforeId = none) :
    cursorClause q row = untilClause q row := by
  unfold cursorClause
  split
  · rename_i hbefore
    rw [h] at hbefore
    cases hbefore
  · rfl

theorem fieldsWhere_of_matched {f : ReqFilter} {row : Row} (channel : Option Uuid)
    (community : CommunityId) (hmatch : Matched f.toFilter row.stored)
    (hmentioned : Mentioned f row)
    (huntil : untilClause (filterToQueryParams f channel community) row = true)
    (hd : FirstDWanted f row) :
    fieldsWhere (filterToQueryParams f channel community) row = true := by
  have hcursor : cursorClause (filterToQueryParams f channel community) row =
      untilClause (filterToQueryParams f channel community) row := cursorClause_of_no_cursor rfl
  simp only [fieldsWhere, Bool.and_eq_true, Bool.not_eq_true', hcursor, and_assoc]
  exact ⟨not_matchesNothing channel community hmatch, mentions_kept channel community hmatch hmentioned,
    kinds_kept hmatch, pubkey_kept channel community hmatch, authors_kept hmatch, ids_kept hmatch,
    eTags_kept channel community hmatch, since_kept channel community hmatch,
    dTag_kept channel community hd, huntil⟩

theorem scopeWhere_applyAccess (f : ReqFilter) (row : Row) (channel : Option Uuid)
    (accessible : List Uuid) (hlive : row.deletedAt = none)
    (haccess : ∀ ch, row.channelId = some ch → ch ∈ accessible) :
    scopeWhere (applyAccessScopeToQuery (filterToQueryParams f channel row.communityId) channel
        accessible) row = true ↔ ∀ ch, channel = some ch → row.channelId = some ch := by
  cases channel with
  | some ch =>
    simp [scopeWhere, applyAccessScopeToQuery, filterToQueryParams, channelClause,
      channelIdsClause, sharedGateClause, EventQuery.forCommunity, hlive]
  | none =>
    cases hrow : row.channelId with
    | none =>
      simp [scopeWhere, applyAccessScopeToQuery, filterToQueryParams, channelClause,
        channelIdsClause, sharedGateClause, EventQuery.forCommunity, hlive, hrow]
    | some ch =>
      simp [scopeWhere, applyAccessScopeToQuery, filterToQueryParams, channelClause,
        channelIdsClause, sharedGateClause, EventQuery.forCommunity, hlive, hrow,
        haccess ch hrow]

/-- A live event that matches a filter and that the reader may read is selected by the filter's
query exactly when it is stored in the query's single channel, if it has one. -/
theorem pushdown_keeps_matches (filters : List ReqFilter) (f : ReqFilter)
    (accessible : List Uuid) (row : Row) (hlive : row.deletedAt = none)
    (hmatch : filtersMatch [f.toFilter] row.stored = true)
    (haccess : ∀ ch, row.channelId = some ch → ch ∈ accessible)
    (hmentioned : Mentioned f row) (huntil : UntilKept f) (hd : FirstDWanted f row) :
    selects (historicalQuery f (extractChannelIdFromFilters filters) row.communityId accessible)
        row = true ↔
      ∀ ch, perFilterChannel f (extractChannelIdFromFilters filters) = some ch →
        row.channelId = some ch := by
  have hmatched : Matched f.toFilter row.stored := by
    apply (filterMatchOne_iff _ _).mp
    simpa [filtersMatch] using hmatch
  unfold historicalQuery
  generalize perFilterChannel f (extractChannelIdFromFilters filters) = channel
  have hbase := fieldsWhere_of_matched channel row.communityId hmatched hmentioned
    (until_kept channel row.communityId hmatched huntil) hd
  have hfields : fieldsWhere (applyAccessScopeToQuery
      (filterToQueryParams f channel row.communityId) channel accessible) row = true := by
    cases channel <;> exact hbase
  rw [selects_eq, Bool.and_eq_true, scopeWhere_applyAccess f row channel accessible hlive haccess]
  simp [hfields]

/-- A channel message of the community `0`. -/
def messageIn (channel : Uuid) (idDigit : Char) : Row where
  communityId := 0
  event :=
    { id := String.ofList (List.replicate 64 idDigit)
      pubkey := "a1"
      createdAt := 1700000000
      kind := 9
      tags := [⟨"h", [channel.toText]⟩] }
  channelId := some channel
  deletedAt := none
  mentions := []
  id_length := by simp
  createdAt_le := by simp

def messagesOf (channels : List Uuid) : ReqFilter where
  ids := none
  authors := none
  kinds := some [9]
  since := none
  until_ := some 1800000000
  genericTags := [('h', channels.map Uuid.toText)]
  limit := none
  search := none
  id_length := by simp
  keys_nodup := by simp

theorem messagesOf_untilKept (channels : List Uuid) : UntilKept (messagesOf channels) := by
  rintro u t hu ht
  cases hu
  have hlt : 1800000000 < 2 ^ 63 := by decide
  exact fromTimestamp_asI64 hlt ht

theorem messagesOf_mentioned (channels : List Uuid) (row : Row) :
    Mentioned (messagesOf channels) row := by
  intro p hp
  have hnone : (messagesOf channels).tagValues 'p' = none := rfl
  rw [hnone] at hp
  cases hp

theorem messagesOf_firstD (channels : List Uuid) (row : Row) :
    FirstDWanted (messagesOf channels) row := by
  intro h
  simp [ReqFilter.nip33Only, messagesOf, isParameterizedReplaceable] at h

theorem message_is_selected :
    selects (historicalQuery (messagesOf [7]) (extractChannelIdFromFilters [messagesOf [7]]) 0 [7])
      (messageIn 7 'f') = true := by
  have hchannel : perFilterChannel (messagesOf [7]) (extractChannelIdFromFilters [messagesOf [7]]) =
      some 7 := by decide +kernel
  apply (pushdown_keeps_matches [messagesOf [7]] (messagesOf [7]) [7] (messageIn 7 'f') rfl
    (by decide +kernel) (by simp [messageIn]) (messagesOf_mentioned _ _) (messagesOf_untilKept _)
    (messagesOf_firstD _ _)).mpr
  intro ch hch
  rw [hchannel] at hch
  exact hch

/-- A membership notice is stored in no channel and names one in its `h` tag. -/
def membershipNotice (channel : Uuid) (target : String) : Row where
  communityId := 0
  event :=
    { id := String.ofList (List.replicate 64 'e')
      pubkey := "b2"
      createdAt := 1700000000
      kind := 44100
      tags := [⟨"p", [target]⟩, ⟨"h", [channel.toText]⟩] }
  channelId := none
  deletedAt := none
  mentions := [asciiLower target]
  id_length := by rw [String.length_ofList, List.length_replicate]
  createdAt_le := by simp

def noticesOf (channel : Uuid) (reader : String) : ReqFilter where
  ids := none
  authors := none
  kinds := some [44100]
  since := none
  until_ := none
  genericTags := [('h', [channel.toText]), ('p', [reader])]
  limit := none
  search := none
  id_length := by simp
  keys_nodup := by simp

/-- The notice matches its filter and lies in no channel, but the query asks for the channel. -/
theorem channel_query_loses_notice :
    (membershipNotice 7 "a1").deletedAt = none ∧ (membershipNotice 7 "a1").channelId = none ∧
      (membershipNotice 7 "a1").mentions = pKeys (membershipNotice 7 "a1").event ∧
      filtersMatch [(noticesOf 7 "a1").toFilter] (membershipNotice 7 "a1").stored = true ∧
      selects (historicalQuery (noticesOf 7 "a1") (extractChannelIdFromFilters [noticesOf 7 "a1"])
        0 [7]) (membershipNotice 7 "a1") = false := by
  refine ⟨rfl, rfl, rfl, ?_, ?_⟩ <;> decide +kernel

end Vingilot.Query
