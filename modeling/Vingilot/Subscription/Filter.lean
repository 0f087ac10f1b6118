import Vingilot.Core

/-! # NIP-01 filter matching (`buzz-core/src/filter.rs`)

Filters of a list are OR-ed. The fields of one filter are AND-ed.
-/

namespace Vingilot.Subscription

/-- One tag requirement of a filter, with the channel fallback for `#h`. -/
def tagRequirementMet (ev : StoredEvent) (key : Char) (wanted : List String) : Bool :=
  let tagKey := String.singleton key
  let hasMatch := wanted.any fun filterVal =>
    ev.event.tags.any fun t => t.kind == tagKey && t.content == some filterVal
  if !hasMatch && tagKey == "h" then
    let eventHasHTags := ev.event.tags.any fun t => t.kind == "h"
    -- Reactions and deletions take their channel from the target and carry no h tag.
    if !eventHasHTags then
      match ev.channelId with
      | some chId => wanted.any fun v => v == Uuid.toText chId
      | none => false
    else false
  else hasMatch

def filterMatchOne (f : Filter) (ev : StoredEvent) : Bool :=
  (match f.kinds with
    | some kinds => kinds.contains ev.event.kind
    | none => true) &&
  (match f.authors with
    | some authors => authors.contains ev.event.pubkey
    | none => true) &&
  (match f.since with
    | some since => !(ev.event.createdAt < since)
    | none => true) &&
  (match f.until_ with
    | some until_ => !(ev.event.createdAt > until_)
    | none => true) &&
  (match f.ids with
    | some ids => ids.any fun id => id.toList.isPrefixOf ev.event.id.toList
    | none => true) &&
  f.genericTags.all fun (key, wanted) => tagRequirementMet ev key wanted

/-- `filters_match`. -/
def filtersMatch (filters : List Filter) (ev : StoredEvent) : Bool :=
  filters.any fun f => filterMatchOne f ev

/-! ## What a match says about kinds and `p` tags -/

theorem kind_mem_of_match (f : Filter) (ev : StoredEvent) (kinds : List Kind)
    (hkinds : f.kinds = some kinds) (h : filterMatchOne f ev = true) :
    ev.event.kind ∈ kinds := by
  simp only [filterMatchOne, hkinds, Bool.and_eq_true, List.contains_iff_mem] at h
  exact h.1.1.1.1.1

theorem tag_of_match (f : Filter) (ev : StoredEvent) (key : Char) (wanted : List String)
    (hkey : (key, wanted) ∈ f.genericTags) (h : filterMatchOne f ev = true) :
    tagRequirementMet ev key wanted = true := by
  simp only [filterMatchOne, Bool.and_eq_true, List.all_eq_true] at h
  exact h.2 (key, wanted) hkey

theorem p_tag_of_match (f : Filter) (ev : StoredEvent) (wanted : List String)
    (hkey : ('p', wanted) ∈ f.genericTags) (h : filterMatchOne f ev = true) :
    ∃ v ∈ wanted, ∃ t ∈ ev.event.tags, t.kind = "p" ∧ t.content = some v := by
  have hmet := tag_of_match f ev 'p' wanted hkey h
  have hname : String.singleton 'p' = "p" := by decide
  have hp : ¬ "p" = "h" := by decide
  simp only [tagRequirementMet, hname, Bool.and_eq_true, beq_iff_eq, hp, and_false, if_false,
    List.any_eq_true] at hmet
  exact hmet

end Vingilot.Subscription
