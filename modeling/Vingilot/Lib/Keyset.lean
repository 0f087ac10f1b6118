import Mathlib.Data.List.Sort
import Vingilot.Lib.Collections

/-!
# Keyset pages

A keyset query lists what a view shows of a table, behind a cursor and in the order of the keys,
and a page is the first `n` items of that list. Two states of a table are compared: `S` lists an
earlier one, a copy say, and `W` a later one.
-/

namespace Keyset

/-! ## The query -/

section Query

variable {κ ν ρ ι : Type*} [LinearOrder ι]

/-- `SELECT .. WHERE .. ORDER BY rank`. -/
def query (t : Table κ ν) (view : κ → Option ρ) (after : κ → Bool) (rank : κ → ι) : List (κ × ρ) :=
  ((t.toList.filterMap fun x => (view x.1).map fun row => (x.1, row)).filter fun x =>
    after x.1).insertionSort fun x y => rank x.1 ≤ rank y.1

variable [DecidableEq κ] {t : Table κ ν} {view : κ → Option ρ} {after : κ → Bool} {rank : κ → ι}

theorem mem_query (hview : ∀ k row, view k = some row → (t.get? k).isSome) {x : κ × ρ} :
    x ∈ query t view after rank ↔ view x.1 = some x.2 ∧ after x.1 = true := by
  rw [query, List.mem_insertionSort, List.mem_filter, List.mem_filterMap, and_congr_left_iff]
  intro _
  constructor
  · rintro ⟨y, -, hy⟩
    obtain ⟨row, hrow, rfl⟩ := Option.map_eq_some_iff.mp hy
    exact hrow
  · intro hrow
    obtain ⟨v, hv⟩ := Option.isSome_iff_exists.mp (hview _ _ hrow)
    exact ⟨(x.1, v), (Table.mem_toList ..).mpr hv, by rw [hrow]; rfl⟩

omit [DecidableEq κ] in
theorem sorted_query (hrank : Function.Injective rank) :
    (query t view after rank).Pairwise fun x y => rank x.1 < rank y.1 := by
  have hkeys : (query t view after rank).Pairwise fun x y => x.1 ≠ y.1 := by
    refine ((List.perm_insertionSort _ _).pairwise_iff fun h => Ne.symm h).mpr (List.Pairwise.filter _ ?_)
    rw [List.pairwise_filterMap]
    refine (Table.nodup_keys t).imp ?_
    intro x y hne a ha b hb
    obtain ⟨_, -, rfl⟩ := Option.map_eq_some_iff.mp ha
    obtain ⟨_, -, rfl⟩ := Option.map_eq_some_iff.mp hb
    exact hne
  have hle : (query t view after rank).Pairwise fun x y => rank x.1 ≤ rank y.1 := by
    have : Std.Total fun x y : κ × ρ => rank x.1 ≤ rank y.1 := ⟨fun _ _ => le_total _ _⟩
    have : IsTrans (κ × ρ) fun x y => rank x.1 ≤ rank y.1 := ⟨fun _ _ _ => le_trans⟩
    exact List.pairwise_insertionSort _ _
  refine (hkeys.and hle).imp ?_
  intro x y hxy
  exact lt_of_le_of_ne hxy.2 fun heq => hxy.1 (hrank heq)

end Query

/-! ## Sorted lists -/

section Sorted

variable {α ι : Type*} [LinearOrder ι] {f : α → ι} {S W F : List α} {n : Nat}

/-- What stands before an item of a page is on the page. -/
theorem mem_take_of_le (hS : S.Pairwise fun x y => f x < f y) {x y : α} (hx : x ∈ S)
    (hy : y ∈ S.take n) (hle : f x ≤ f y) : x ∈ S.take n := by
  rw [← List.take_append_drop n S] at hS hx
  rcases List.mem_append.mp hx with hx | hx
  · exact hx
  · exact absurd hle (not_le.mpr ((List.pairwise_append.mp hS).2.2 y hy x hx))

theorem nodup_of_sorted (hS : S.Pairwise fun x y => f x < f y) : S.Nodup :=
  hS.imp fun hlt heq => hlt.ne (congrArg f heq)

theorem sublist_of_sorted (hF : F.Pairwise fun x y => f x < f y)
    (hW : W.Pairwise fun x y => f x < f y) (h : ∀ x ∈ F, x ∈ W) : F.Sublist W := by
  have : Std.Antisymm fun x y : α => f x < f y := ⟨fun _ _ hxy hyx => absurd hyx hxy.asymm⟩
  exact List.sublist_of_subperm_of_pairwise (List.subperm_of_subset (nodup_of_sorted hF) h) hF hW

/-- A sorted list is a prefix of another when it has the first items of it. -/
theorem prefix_of_sorted (hF : F.Pairwise fun x y => f x < f y)
    (hW : W.Pairwise fun x y => f x < f y) (h : ∀ x ∈ F, x ∈ W)
    (hrest : ∀ x ∈ W, x ∉ F → ∀ y ∈ F, f y < f x) : F <+: W := by
  induction F generalizing W with
  | nil => exact List.nil_prefix
  | cons y F ih =>
    cases W with
    | nil => cases h y List.mem_cons_self
    | cons w W =>
      obtain ⟨hy, hF'⟩ := List.pairwise_cons.mp hF
      obtain ⟨hw, hW'⟩ := List.pairwise_cons.mp hW
      have heq : w = y := by
        by_contra hne
        have hwy : f w < f y :=
          hw y ((List.mem_cons.mp (h y List.mem_cons_self)).resolve_left (Ne.symm hne))
        have hyw : f y < f w := by
          by_cases hmem : w ∈ F
          · exact hy w hmem
          · exact hrest w List.mem_cons_self (by simp [hne, hmem]) y List.mem_cons_self
        exact hwy.asymm hyw
      subst heq
      refine List.cons_prefix_cons.mpr ⟨rfl, ih hF' hW' ?_ ?_⟩
      · intro x hx
        refine (List.mem_cons.mp (h x (List.mem_cons_of_mem _ hx))).resolve_left ?_
        rintro rfl
        exact (hy x hx).false
      · intro x hx hnot z hz
        refine hrest x (List.mem_cons_of_mem _ hx) ?_ z (List.mem_cons_of_mem _ hz)
        intro hmem
        rcases List.mem_cons.mp hmem with rfl | hmem
        · exact (hw x hx).false
        · exact hnot hmem

theorem le_getLast (hS : S.Pairwise fun x y => f x < f y) {x z : α} (hlast : S.getLast? = some z)
    (hx : x ∈ S) : f x ≤ f z := by
  obtain ⟨ys, rfl⟩ := List.getLast?_eq_some_iff.mp hlast
  rcases List.mem_append.mp hx with hx | hx
  · exact ((List.pairwise_append.mp hS).2.2 x hx z (by simp)).le
  · rw [List.mem_singleton.mp hx]

/-- When no item is skipped, the last one comes of the last one. -/
theorem getLast?_filterMap_of_full {β : Type*} {g : α → Option β} {xs : List α}
    (h : xs.length ≤ (xs.filterMap g).length) :
    (xs.filterMap g).getLast? = xs.getLast?.bind g := by
  rcases List.eq_nil_or_concat xs with rfl | ⟨ys, z, rfl⟩
  · rfl
  · rw [List.concat_eq_append, List.filterMap_append, List.length_append, List.length_append] at h
    have hle := List.length_filterMap_le g ys
    rw [List.concat_eq_append, List.filterMap_append, List.getLast?_append, List.getLast?_concat]
    cases hz : g z with
    | none =>
      simp only [List.filterMap_cons, hz, List.filterMap_nil, List.length_nil, List.length_cons] at h
      omega
    | some y => simp [hz]

end Sorted

/-! ## Behind a row -/

section Behind

theorem eq_of_sorted {α ι : Type*} [LinearOrder ι] {f : α → ι} {S W : List α}
    (hS : S.Pairwise fun x y => f x < f y) (hW : W.Pairwise fun x y => f x < f y)
    (h : ∀ x, x ∈ S ↔ x ∈ W) : S = W :=
  (sublist_of_sorted hS hW fun x => (h x).mp).antisymm
    (sublist_of_sorted hW hS fun x => (h x).mpr)

variable {κ ν ρ ι : Type*} [LinearOrder ι] [DecidableEq κ] {t : Table κ ν} {view : κ → Option ρ}
  {first after : κ → Bool} {rank : κ → ι}

/-- The query behind the last row that was read lists the rows that were not. -/
theorem query_behind (hview : ∀ k row, view k = some row → (t.get? k).isSome)
    (hrank : Function.Injective rank) {xs ys : List (κ × ρ)} {z : κ × ρ}
    (hall : query t view first rank = xs ++ z :: ys)
    (hafter : ∀ k, after k = true ↔ first k = true ∧ rank z.1 < rank k) :
    query t view after rank = ys := by
  have hsorted : (query t view first rank).Pairwise _ := sorted_query hrank
  rw [hall] at hsorted
  obtain ⟨-, hz, hbefore⟩ := List.pairwise_append.mp hsorted
  obtain ⟨hz, hys⟩ := List.pairwise_cons.mp hz
  refine eq_of_sorted (sorted_query hrank) hys fun x => ?_
  have hmem : x ∈ query t view first rank ↔ _ := mem_query hview
  rw [hall, List.mem_append, List.mem_cons] at hmem
  rw [mem_query hview, hafter]
  constructor
  · rintro ⟨hrow, hfirst, hlt⟩
    rcases hmem.mpr ⟨hrow, hfirst⟩ with hx | rfl | hx
    · exact absurd hlt (hbefore x hx z List.mem_cons_self).asymm
    · exact absurd hlt (lt_irrefl _)
    · exact hx
  · intro hx
    obtain ⟨hrow, hfirst⟩ := hmem.mp (.inr (.inr hx))
    exact ⟨hrow, hfirst, hz x hx⟩

end Behind

/-! ## Slices -/

section Slices

variable {α : Type*} {n : Nat} {xs : List α}

/-- The pages of `n` items that a list is read in; an empty list is read in one. -/
def slices (n : Nat) (xs : List α) : List (List α) :=
  if 0 < n ∧ n < xs.length then xs.take n :: slices n (xs.drop n) else [xs]
termination_by xs.length
decreasing_by
  rw [List.length_drop]
  omega

theorem slices_more (hn : 0 < n) (h : n < xs.length) :
    slices n xs = xs.take n :: slices n (xs.drop n) := by
  rw [slices, if_pos ⟨hn, h⟩]

theorem slices_last (h : xs.length ≤ n) : slices n xs = [xs] := by
  rw [slices, if_neg fun hmore => absurd hmore.2 (not_lt.mpr h)]

theorem flatten_slices (n : Nat) (xs : List α) : (slices n xs).flatten = xs := by
  induction xs using slices.induct n with
  | case1 xs h ih => rw [slices_more h.1 h.2, List.flatten_cons, ih, List.take_append_drop]
  | case2 xs h => rw [slices, if_neg h, List.flatten_singleton]

theorem length_le_of_mem_slices (hn : 0 < n) {v : List α} (hv : v ∈ slices n xs) : v.length ≤ n := by
  induction xs using slices.induct n with
  | case1 xs h ih =>
    rw [slices_more h.1 h.2] at hv
    rcases List.mem_cons.mp hv with rfl | hv
    · exact List.length_take_le ..
    · exact ih hv
  | case2 xs h =>
    rw [slices, if_neg h] at hv
    cases List.mem_singleton.mp hv
    exact not_lt.mp fun hlt => h ⟨hn, hlt⟩

theorem slices_ne_nil (hxs : xs ≠ []) {v : List α} (hv : v ∈ slices n xs) : v ≠ [] := by
  induction xs using slices.induct n with
  | case1 xs h ih =>
    have hpos := List.length_pos_iff.mpr hxs
    rw [slices_more h.1 h.2] at hv
    rcases List.mem_cons.mp hv with rfl | hv
    · rw [← List.length_pos_iff, List.length_take]
      omega
    · refine ih ?_ hv
      rw [← List.length_pos_iff, List.length_drop]
      omega
  | case2 xs h =>
    rw [slices, if_neg h] at hv
    cases List.mem_singleton.mp hv
    exact hxs

theorem length_slices_pos (n : Nat) (xs : List α) : 0 < (slices n xs).length := by
  rw [slices]
  split <;> exact Nat.succ_pos _

/-- There is a page more exactly when an item has not been read. -/
theorem lt_length_slices (hxs : xs.Nodup) (i : Nat) :
    i + 1 < (slices n xs).length ↔ ∃ x ∈ xs, x ∉ ((slices n xs).take (i + 1)).flatten := by
  constructor
  · intro hlt
    have hne : xs ≠ [] := by
      rintro rfl
      rw [slices_last (Nat.zero_le n)] at hlt
      exact absurd hlt (by simp)
    obtain ⟨x, hx⟩ :=
      List.exists_mem_of_ne_nil _ (slices_ne_nil hne (List.getElem_mem hlt))
    have hcut := flatten_slices n xs
    rw [← List.take_append_drop (i + 1) (slices n xs), List.flatten_append,
      List.drop_eq_getElem_cons hlt, List.flatten_cons] at hcut
    refine ⟨x, ?_, fun hread => ?_⟩
    · rw [← hcut]
      simp [hx]
    · rw [← hcut] at hxs
      exact List.disjoint_of_nodup_append hxs hread (List.mem_append_left _ hx)
  · rintro ⟨x, hx, hnot⟩
    by_contra hle
    rw [List.take_of_length_le (not_lt.mp hle), flatten_slices] at hnot
    exact hnot hx

end Slices

/-! ## A copy that covers the keys up to a bound -/

section Covers

variable {α ι : Type*} [LinearOrder ι]

/-- `S` has all of `W` where `c` holds, which is for the first keys. -/
structure Covers (f : α → ι) (c : α → Prop) (S W : List α) : Prop where
  sorted : S.Pairwise fun x y => f x < f y
  sorted' : W.Pairwise fun x y => f x < f y
  closed : ∀ x y, f x ≤ f y → c y → c x
  mem : ∀ x ∈ W, c x → x ∈ S

variable {f : α → ι} {c : α → Prop} {S W : List α} {n : Nat}

/-- No hole before a covered item of the page. -/
theorem Covers.complete (h : Covers f c S W) {x y : α} (hx : x ∈ W) (hy : y ∈ S.take n) (hc : c y)
    (hle : f x ≤ f y) : x ∈ S.take n :=
  mem_take_of_le h.sorted (h.mem x hx (h.closed x y hle hc)) hy hle

/-- No hole at all in a page that was not cut, when everything is covered. -/
theorem Covers.complete_all (h : Covers f c S W) (hc : ∀ x ∈ W, c x) (hshort : S.length ≤ n)
    {x : α} (hx : x ∈ W) : x ∈ S.take n := by
  rw [List.take_of_length_le hshort]
  exact h.mem x hx (hc x hx)

theorem Covers.sublist (h : Covers f c S W) {p : α → Bool}
    (hp : ∀ x ∈ W, p x = true → x ∈ S.take n) : (W.filter p).Sublist (S.take n) := by
  refine sublist_of_sorted (h.sorted'.filter _) (h.sorted.sublist (List.take_sublist ..)) ?_
  intro x hx
  exact hp x (List.mem_filter.mp hx).1 (List.mem_filter.mp hx).2

/-- The pages are equal when `W` still has what `S` put on its own. -/
theorem Covers.take_eq (h : Covers f c S W) (hkept : ∀ x ∈ S.take n, x ∈ W)
    (hc : ∀ x ∈ S.take n, c x) (hall : (S.take n).length = n ∨ ∀ x ∈ W, c x) :
    W.take n = S.take n := by
  have hfirst : S.take n <+: W := by
    refine prefix_of_sorted (h.sorted.sublist (List.take_sublist ..)) h.sorted' hkept ?_
    intro x hx hnot y hy
    by_contra hle
    exact hnot (h.complete hx hy (hc y hy) (not_lt.mp hle))
  obtain ⟨rest, hrest⟩ := hfirst
  by_cases hfull : (S.take n).length = n
  · rw [← hrest, List.take_append_of_le_length hfull.ge, List.take_of_length_le hfull.le]
  · have hshort : S.length ≤ n := by
      rw [List.length_take] at hfull
      omega
    have hnil : rest = [] := by
      refine List.eq_nil_iff_forall_not_mem.mpr fun x hx => ?_
      have hmem : x ∈ W := by
        rw [← hrest]
        exact List.mem_append_right _ hx
      have hdisjoint := List.disjoint_of_nodup_append (hrest ▸ nodup_of_sorted h.sorted')
      exact hdisjoint (h.complete_all (hall.resolve_left hfull) hshort hmem) hx
    rw [← hrest, hnil, List.append_nil, List.take_take, Nat.min_self]

end Covers

end Keyset
