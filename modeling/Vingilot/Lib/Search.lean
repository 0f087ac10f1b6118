import Mathlib.Data.List.Basic
import Mathlib.Data.List.Infix
import Vingilot.Lib.Collections

/-!
# Searching a list for a pattern

The first occurrence, the occurrences a left-to-right scan counts when it goes on
behind each one it finds, and the replacement of those.
-/

namespace Search

variable {α : Type*}

/-- The pattern stands in the text at the offset. Occurrences may overlap. -/
def OccursAt (text pattern : List α) (i : Nat) : Prop := pattern <+: text.drop i

/-- The text with the pattern at an offset replaced. -/
def splice (text pattern new : List α) (i : Nat) : List α :=
  text.take i ++ new ++ text.drop (i + pattern.length)

variable {text pattern : List α} {i : Nat}

theorem OccursAt.le_length (hne : pattern ≠ []) (h : OccursAt text pattern i) :
    i + pattern.length ≤ text.length := by
  have hle := h.length_le
  have hpos := List.length_pos_of_ne_nil hne
  rw [List.length_drop] at hle
  omega

theorem length_splice {new : List α} (hne : pattern ≠ []) (h : OccursAt text pattern i) :
    (splice text pattern new i).length + pattern.length = text.length + new.length := by
  have hle := h.le_length hne
  simp only [splice, List.length_append, List.length_take, List.length_drop]
  omega

theorem occursAt_drop (i j : Nat) :
    OccursAt (text.drop i) pattern j ↔ OccursAt text pattern (i + j) := by
  rw [OccursAt, OccursAt, List.drop_drop]

theorem OccursAt.parts (h : OccursAt text pattern i) :
    text.take i ++ (pattern ++ text.drop (i + pattern.length)) = text := by
  obtain ⟨rest, hrest⟩ := h
  have hdrop : text.drop (i + pattern.length) = rest := by
    rw [← List.drop_drop, ← hrest, List.drop_left]
  rw [hdrop, hrest, List.take_append_drop]

variable [DecidableEq α]

instance (text pattern : List α) (i : Nat) : Decidable (OccursAt text pattern i) :=
  inferInstanceAs (Decidable (pattern <+: text.drop i))

/-! ## The first occurrence -/

def find (pattern : List α) : List α → Option Nat
  | [] => if pattern = [] then some 0 else none
  | c :: text =>
    if pattern.isPrefixOf (c :: text) then some 0
    else (find pattern text).map (· + 1)

theorem find_eq_none_iff (hne : pattern ≠ []) :
    find pattern text = none ↔ ∀ i, ¬ OccursAt text pattern i := by
  induction text with
  | nil => simp [find, hne, OccursAt]
  | cons c text ih =>
    rw [find]
    split_ifs with hhead
    · simp only [false_iff, not_forall, not_not]
      exact ⟨0, by simpa [OccursAt] using hhead⟩
    · rw [Option.map_eq_none_iff, ih]
      constructor
      · intro h i
        cases i with
        | zero => simpa [OccursAt] using hhead
        | succ i => exact h i
      · exact fun h i => h (i + 1)

theorem find_eq_some (h : find pattern text = some i) :
    OccursAt text pattern i ∧ ∀ j < i, ¬ OccursAt text pattern j := by
  induction text generalizing i with
  | nil =>
    rw [find] at h
    split_ifs at h with hnil
    cases h
    exact ⟨by simp [OccursAt, hnil], fun j hj => absurd hj (Nat.not_lt_zero j)⟩
  | cons c text ih =>
    rw [find] at h
    split_ifs at h with hhead
    · cases h
      exact ⟨by simpa [OccursAt] using hhead, fun j hj => absurd hj (Nat.not_lt_zero j)⟩
    · obtain ⟨k, hk, rfl⟩ := Option.map_eq_some_iff.mp h
      obtain ⟨hoccurs, hfirst⟩ := ih hk
      refine ⟨hoccurs, fun j hj => ?_⟩
      cases j with
      | zero => simpa [OccursAt] using hhead
      | succ j => exact hfirst j (by omega)

/-- The text before the first separator and the text after it. -/
def splitOnce (sep : α) : List α → Option (List α × List α)
  | [] => none
  | a :: text =>
    if a = sep then some ([], text)
    else (splitOnce sep text).map fun (left, right) => (a :: left, right)

theorem splitOnce_append {sep : α} {left : List α} (h : sep ∉ left)
    (right : List α) : splitOnce sep (left ++ sep :: right) = some (left, right) := by
  induction left with
  | nil => rw [List.nil_append, splitOnce, if_pos rfl]
  | cons a left ih =>
    have ha : a ≠ sep := fun heq => h (heq ▸ List.mem_cons_self)
    rw [List.cons_append, splitOnce, if_neg ha, ih fun hmem => h (List.mem_cons_of_mem _ hmem)]
    rfl

/-! ## The scan -/

/-- How many occurrences a scan finds that goes on behind each of them. The first
`skip` items lie inside the last one found. -/
def count (pattern : List α) : Nat → List α → Nat
  | _, [] => 0
  | skip + 1, _ :: text => count pattern skip text
  | 0, c :: text =>
    if pattern.isPrefixOf (c :: text) then count pattern (pattern.length - 1) text + 1
    else count pattern 0 text

/-- What the scan makes of the text when it writes `new` for each occurrence. -/
def replace (pattern new : List α) : Nat → List α → List α
  | _, [] => []
  | skip + 1, _ :: text => replace pattern new skip text
  | 0, c :: text =>
    if pattern.isPrefixOf (c :: text) then new ++ replace pattern new (pattern.length - 1) text
    else c :: replace pattern new 0 text

/-- The size of the replaced text. -/
theorem length_replace (new : List α) (hne : pattern ≠ []) {skip : Nat} (hskip : skip ≤ text.length) :
    (replace pattern new skip text).length + skip + count pattern skip text * pattern.length =
      text.length + count pattern skip text * new.length := by
  induction text generalizing skip with
  | nil => simpa [replace, count] using hskip
  | cons c text ih =>
    cases skip with
    | succ skip =>
      have hrest := ih (Nat.le_of_succ_le_succ hskip)
      simp only [replace, count, List.length_cons]
      omega
    | zero =>
      rw [replace, count]
      split_ifs with hhead
      · have hle : pattern.length ≤ text.length + 1 :=
          (List.isPrefixOf_iff_prefix.mp hhead).length_le
        have hpos := List.length_pos_of_ne_nil hne
        have hrest := ih (by omega : pattern.length - 1 ≤ text.length)
        simp only [List.length_append, List.length_cons, Nat.add_mul, Nat.one_mul]
        omega
      · have hrest := ih (Nat.zero_le _)
        simp only [List.length_cons]
        omega

theorem count_le_length (pattern : List α) (skip : Nat) (text : List α) :
    count pattern skip text ≤ text.length := by
  induction text generalizing skip with
  | nil => simp [count]
  | cons c text ih =>
    cases skip with
    | succ skip => exact (ih skip).trans (Nat.le_succ _)
    | zero =>
      rw [count]
      split_ifs
      · exact Nat.succ_le_succ (ih _)
      · exact (ih 0).trans (Nat.le_succ _)

theorem count_pos_iff (hne : pattern ≠ []) :
    0 < count pattern 0 text ↔ ∃ i, OccursAt text pattern i := by
  induction text with
  | nil => simp [count, OccursAt, hne]
  | cons c text ih =>
    rw [count]
    split_ifs with hhead
    · exact iff_of_true (Nat.succ_pos _) ⟨0, by simpa [OccursAt] using hhead⟩
    · rw [ih]
      constructor
      · rintro ⟨i, hi⟩
        exact ⟨i + 1, hi⟩
      · rintro ⟨i, hi⟩
        cases i with
        | zero => exact absurd (by simpa [OccursAt] using hi) hhead
        | succ i => exact ⟨i, hi⟩

/-! ## The items by their first places -/

/-- The items that stand somewhere, each of them once, in the order of their first places. -/
structure Firsts {ι : Type*} [LT ι] (holds : α → ι → Prop) (out : List α) : Prop where
  nodup : out.Nodup
  mem : ∀ x, x ∈ out ↔ ∃ i, holds x i
  order : out.Pairwise fun x y => ∃ i, holds x i ∧ ∀ j, holds y j → i < j

/-- Pushing what is new, place by place, lists the items by their first places. -/
theorem firsts_foldl_pushNew {ι : Type*} [LT ι] {occurrences : List (ι × α)}
    (hsorted : occurrences.Pairwise fun x y => x.1 < y.1) :
    Firsts (fun x i => (i, x) ∈ occurrences) ((occurrences.map Prod.snd).foldl pushNew []) := by
  induction occurrences using List.reverseRecOn with
  | nil => exact ⟨by simp, by simp, by simp⟩
  | append_singleton occurrences last ih =>
    obtain ⟨i, x⟩ := last
    obtain ⟨hbefore, -, hlast⟩ := List.pairwise_append.mp hsorted
    obtain ⟨hnodup, hmem, horder⟩ := ih hbefore
    have hlater : ∀ j y, (j, y) ∈ occurrences → j < i := fun j y hj =>
      hlast (j, y) hj (i, x) (List.mem_singleton_self _)
    rw [List.map_append, List.foldl_append]
    -- A place more at the end moves no first place that was there.
    have hkept : ((occurrences.map Prod.snd).foldl pushNew []).Pairwise fun y z =>
        ∃ j, (j, y) ∈ occurrences ++ [(i, x)] ∧
          ∀ k, (k, z) ∈ occurrences ++ [(i, x)] → j < k := by
      refine horder.imp ?_
      rintro y z ⟨j, hj, hfirst⟩
      refine ⟨j, List.mem_append_left _ hj, fun k hk => ?_⟩
      rcases List.mem_append.mp hk with hk | hk
      · exact hfirst k hk
      · rw [List.mem_singleton, Prod.mk.injEq] at hk
        rw [hk.1]
        exact hlater j y hj
    refine ⟨nodup_pushNew x hnodup, fun y => ?_, ?_⟩
    · simp only [List.map_cons, List.map_nil, List.foldl_cons, List.foldl_nil]
      rw [mem_pushNew, hmem]
      simp only [List.mem_append, List.mem_singleton, Prod.mk.injEq, exists_or, exists_eq_left]
    · simp only [List.map_cons, List.map_nil, List.foldl_cons, List.foldl_nil]
      unfold pushNew
      split_ifs with hx
      · exact hkept
      · refine List.pairwise_append.mpr ⟨hkept, List.pairwise_singleton _ _, ?_⟩
        intro y hy z hz
        rw [List.mem_singleton] at hz
        subst hz
        obtain ⟨j, hj⟩ := (hmem y).mp hy
        refine ⟨j, List.mem_append_left _ hj, fun k hk => ?_⟩
        rcases List.mem_append.mp hk with hk | hk
        · exact absurd ((hmem z).mpr ⟨k, hk⟩) hx
        · rw [List.mem_singleton, Prod.mk.injEq] at hk
          rw [hk.1]
          exact hlater j y hj

end Search
