import Mathlib.Data.Set.Card
import Mathlib.Logic.Relation

/-!
# Ancestors in a table of parents

`next a` is what the row of `a` says: `none` when there is no row, and `some none` when `a` is a
root. Rows that are added or kept leave the ancestors of the others as they are.
-/

namespace Ancestry

variable {α : Type*} {next next' : α → Option (Option α)} {a b : α} {l : List α}

def IsParent (next : α → Option (Option α)) (p c : α) : Prop := next c = some (some p)

/-- A proper ancestor. -/
def IsAncestor (next : α → Option (Option α)) : α → α → Prop := Relation.TransGen (IsParent next)

/-- The ancestors from the parent up to a root. -/
inductive Chain (next : α → Option (Option α)) : α → List α → Prop
  | root {a : α} (hroot : next a = some none) : Chain next a []
  | hop {a p : α} {l : List α} (hparent : next a = some (some p)) (hrest : Chain next p l) :
      Chain next a (p :: l)

/-- Every row of `next` is in `next'` too, with the same parent. -/
def Extends (next next' : α → Option (Option α)) : Prop := ∀ x v, next x = some v → next' x = some v

theorem Extends.refl (next : α → Option (Option α)) : Extends next next := fun _ _ h => h

theorem Extends.trans {next'' : α → Option (Option α)} (h : Extends next next')
    (h' : Extends next' next'') : Extends next next'' :=
  fun x v hx => h' x v (h x v hx)

theorem Chain.mono (h : Extends next next') (hchain : Chain next a l) : Chain next' a l := by
  induction hchain with
  | root hroot => exact .root (h _ _ hroot)
  | hop hparent hrest ih => exact .hop (h _ _ hparent) ih

theorem Chain.unique {l' : List α} (h : Chain next a l) (h' : Chain next a l') : l = l' := by
  induction h generalizing l' with
  | root hroot =>
    cases h' with
    | root => rfl
    | hop hparent =>
      rw [hroot] at hparent
      cases hparent
  | hop hparent hrest ih =>
    cases h' with
    | root hroot =>
      rw [hparent] at hroot
      cases hroot
    | hop hparent' hrest' =>
      rw [hparent] at hparent'
      cases hparent'
      rw [ih hrest']

/-- The chain goes on from each of its members. -/
theorem Chain.of_mem (h : Chain next a l) (hb : b ∈ l) :
    ∃ before behind, l = before ++ b :: behind ∧ Chain next b behind := by
  induction h with
  | root => cases hb
  | @hop a p l hparent hrest ih =>
    rcases List.mem_cons.mp hb with rfl | hb
    · exact ⟨[], l, rfl, hrest⟩
    · obtain ⟨before, behind, rfl, hchain⟩ := ih hb
      exact ⟨p :: before, behind, rfl, hchain⟩

/-- A chain that ends does not come back. -/
theorem Chain.not_mem (h : Chain next a l) : a ∉ l := by
  intro hmem
  obtain ⟨before, behind, hsplit, hchain⟩ := h.of_mem hmem
  have hlen := congrArg List.length (h.unique hchain)
  rw [hsplit] at hlen
  simp only [List.length_append, List.length_cons] at hlen
  omega

theorem Chain.nodup (h : Chain next a l) : l.Nodup := by
  induction h with
  | root => exact List.nodup_nil
  | hop _ hrest ih => exact List.nodup_cons.mpr ⟨hrest.not_mem, ih⟩

theorem Chain.mem_iff (h : Chain next a l) : b ∈ l ↔ IsAncestor next b a := by
  induction h with
  | @root a hroot =>
    simp only [List.not_mem_nil, false_iff]
    intro hancestor
    obtain ⟨p, -, hparent⟩ := Relation.TransGen.tail'_iff.mp hancestor
    rw [IsParent, hroot] at hparent
    cases hparent
  | @hop a p l hparent hrest ih =>
    rw [List.mem_cons, ih]
    constructor
    · rintro (rfl | hancestor)
      · exact .single hparent
      · exact .tail hancestor hparent
    · intro hancestor
      cases hancestor with
      | single hsingle =>
        rw [IsParent, hparent] at hsingle
        cases hsingle
        exact .inl rfl
      | tail hbefore hlast =>
        rw [IsParent, hparent] at hlast
        cases hlast
        exact .inr hbefore

theorem Chain.setOf_eq (h : Chain next a l) : {b | IsAncestor next b a} = {b | b ∈ l} := by
  ext b
  exact h.mem_iff.symm

theorem Chain.finite (h : Chain next a l) : {b | IsAncestor next b a}.Finite := by
  rw [h.setOf_eq]
  exact List.finite_toSet l

/-- The chain has each ancestor once. -/
theorem Chain.ncard (h : Chain next a l) : {b | IsAncestor next b a}.ncard = l.length := by
  classical
  have hset : {b | b ∈ l} = (l.toFinset : Set α) := by
    ext b
    simp
  rw [h.setOf_eq, hset, Set.ncard_coe_finset, List.toFinset_card_of_nodup h.nodup]

/-- Where every row has a chain, there is no way up without an end. -/
theorem wellFounded_of_chains (h : ∀ x v, next x = some v → ∃ l, Chain next x l) :
    WellFounded (IsParent next) := by
  have hacc : ∀ {x l}, Chain next x l → Acc (IsParent next) x := by
    intro x l hchain
    induction hchain with
    | root hroot =>
      refine ⟨_, fun p hp => ?_⟩
      rw [IsParent, hroot] at hp
      cases hp
    | hop hparent hrest ih =>
      refine ⟨_, fun p hp => ?_⟩
      rw [IsParent, hparent] at hp
      cases hp
      exact ih
  refine ⟨fun x => ⟨x, fun p hp => ?_⟩⟩
  obtain ⟨l, hchain⟩ := h x _ hp
  cases hchain with
  | root hroot =>
    rw [IsParent, hroot] at hp
    cases hp
  | hop hparent hrest =>
    rw [IsParent, hparent] at hp
    cases hp
    exact hacc hrest

end Ancestry
