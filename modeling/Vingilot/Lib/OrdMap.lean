import Mathlib.Data.List.Sort
import Mathlib.Data.List.Destutter
import Mathlib.Data.String.Basic

/-!
# Maps in key order, and sorted lists without repeats

`OrdMap` keeps its entries in strictly ascending order of the keys, so two maps with
the same entries are equal and are walked in the same order.
-/

structure OrdMap (κ ν : Type*) [LinearOrder κ] where
  entries : List (κ × ν)
  sorted : (entries.map Prod.fst).Pairwise (· < ·)

namespace OrdMap

variable {κ ν : Type*} [LinearOrder κ]

@[ext]
theorem ext {m m' : OrdMap κ ν} (h : m.entries = m'.entries) : m = m' := by
  cases m
  cases m'
  cases h
  rfl

instance [DecidableEq ν] : DecidableEq (OrdMap κ ν) := fun m m' =>
  decidable_of_iff (m.entries = m'.entries) ⟨ext, fun h => h ▸ rfl⟩

def empty : OrdMap κ ν := ⟨[], List.Pairwise.nil⟩

def size (m : OrdMap κ ν) : Nat := m.entries.length

def keys (m : OrdMap κ ν) : List κ := m.entries.map Prod.fst

def contains (m : OrdMap κ ν) (k : κ) : Bool := decide (k ∈ m.keys)

def insertEntry (k : κ) (v : ν) : List (κ × ν) → List (κ × ν)
  | [] => [(k, v)]
  | e :: rest =>
    if k < e.1 then (k, v) :: e :: rest
    else if k = e.1 then (k, v) :: rest
    else e :: insertEntry k v rest

variable {entries : List (κ × ν)}

theorem mem_keys_insertEntry {k : κ} {v : ν} {x : κ}
    (h : x ∈ (insertEntry k v entries).map Prod.fst) : x = k ∨ x ∈ entries.map Prod.fst := by
  induction entries with
  | nil => simpa [insertEntry] using h
  | cons e rest ih =>
    unfold insertEntry at h
    split_ifs at h with hlt heq
    · simpa using h
    · rcases List.mem_cons.mp h with hx | hx
      · exact Or.inl hx
      · exact Or.inr (List.mem_cons_of_mem _ hx)
    · rcases List.mem_cons.mp h with hx | hx
      · exact Or.inr (hx ▸ List.mem_cons_self)
      · exact (ih hx).imp_right (List.mem_cons_of_mem _)

theorem sorted_insertEntry (k : κ) (v : ν) (h : (entries.map Prod.fst).Pairwise (· < ·)) :
    ((insertEntry k v entries).map Prod.fst).Pairwise (· < ·) := by
  induction entries with
  | nil => exact List.pairwise_singleton _ _
  | cons e rest ih =>
    obtain ⟨hhead, hrest⟩ := List.pairwise_cons.mp h
    unfold insertEntry
    split_ifs with hlt heq
    · refine List.pairwise_cons.mpr ⟨?_, h⟩
      intro x hx
      rcases List.mem_cons.mp hx with rfl | hx
      · exact hlt
      · exact hlt.trans (hhead x hx)
    · subst heq
      exact List.pairwise_cons.mpr ⟨hhead, hrest⟩
    · refine List.pairwise_cons.mpr ⟨?_, ih hrest⟩
      intro x hx
      rcases mem_keys_insertEntry hx with rfl | hx
      · exact lt_of_le_of_ne (not_lt.mp hlt) (Ne.symm heq)
      · exact hhead x hx

/-- The value at a key that is there is replaced. -/
def insert (m : OrdMap κ ν) (k : κ) (v : ν) : OrdMap κ ν :=
  ⟨insertEntry k v m.entries, sorted_insertEntry k v m.sorted⟩

/-- The entries are inserted in their order, so the last one at a key stays. -/
def ofList (entries : List (κ × ν)) : OrdMap κ ν :=
  entries.foldl (fun m e => m.insert e.1 e.2) empty

/-- A key above all others goes to the end. -/
theorem insertEntry_above (k : κ) (v : ν) (entries : List (κ × ν))
    (h : ∀ x ∈ entries.map Prod.fst, x < k) : insertEntry k v entries = entries ++ [(k, v)] := by
  induction entries with
  | nil => rfl
  | cons e rest ih =>
    have hlt : e.1 < k := h e.1 List.mem_cons_self
    unfold insertEntry
    rw [if_neg hlt.asymm, if_neg hlt.ne', ih fun x hx => h x (List.mem_cons_of_mem _ hx)]
    rfl

theorem foldl_insert_entries (entries : List (κ × ν)) (m : OrdMap κ ν)
    (h : ((m.entries ++ entries).map Prod.fst).Pairwise (· < ·)) :
    (entries.foldl (fun m e => m.insert e.1 e.2) m).entries = m.entries ++ entries := by
  induction entries generalizing m with
  | nil => simp
  | cons e rest ih =>
    have habove : ∀ x ∈ m.entries.map Prod.fst, x < e.1 := by
      intro x hx
      rw [List.map_append, List.pairwise_append] at h
      exact h.2.2 x hx e.1 List.mem_cons_self
    have hentries : (m.insert e.1 e.2).entries = m.entries ++ [e] :=
      insertEntry_above e.1 e.2 m.entries habove
    rw [List.foldl_cons, ih, hentries, List.append_assoc, List.singleton_append]
    rw [hentries, List.append_assoc, List.singleton_append]
    exact h

/-- Entries in order make the map of just these entries. -/
theorem entries_ofList (h : (entries.map Prod.fst).Pairwise (· < ·)) :
    (ofList entries).entries = entries :=
  foldl_insert_entries entries empty h

theorem ofList_entries (m : OrdMap κ ν) : ofList m.entries = m :=
  ext (entries_ofList m.sorted)

end OrdMap

/-! ## Sorted lists without repeats -/

section SortDedup

variable {α : Type*} [LinearOrder α]

/-- `sort` and then `dedup`, which drops repeats that stand side by side. -/
def sortDedup (xs : List α) : List α := (xs.insertionSort (· ≤ ·)).destutter (· ≠ ·)

/-- Repeats of a sorted list stand side by side, so none is left. -/
theorem pairwise_lt_of_isChain_ne {xs : List α} (hle : xs.Pairwise (· ≤ ·))
    (hne : xs.IsChain (· ≠ ·)) : xs.Pairwise (· < ·) := by
  induction xs with
  | nil => exact List.Pairwise.nil
  | cons x xs ih =>
    obtain ⟨hhead, hrest⟩ := List.pairwise_cons.mp hle
    have htail := ih hrest hne.tail
    refine List.pairwise_cons.mpr ⟨?_, htail⟩
    cases xs with
    | nil => simp
    | cons y ys =>
      have hxy : x < y :=
        lt_of_le_of_ne (hhead y List.mem_cons_self) (List.isChain_cons_cons.mp hne).1
      intro z hz
      rcases List.mem_cons.mp hz with rfl | hz
      · exact hxy
      · exact hxy.trans ((List.pairwise_cons.mp htail).1 z hz)

theorem sorted_sortDedup (xs : List α) : (sortDedup xs).Pairwise (· < ·) :=
  pairwise_lt_of_isChain_ne
    ((List.pairwise_insertionSort (· ≤ ·) xs).sublist (List.destutter_sublist _ _))
    (List.isChain_destutter _ _)

theorem sortDedup_of_sorted {xs : List α} (h : xs.Pairwise (· < ·)) : sortDedup xs = xs := by
  have hsort : xs.insertionSort (· ≤ ·) = xs := (h.imp le_of_lt).insertionSort_eq
  rw [sortDedup, hsort]
  exact List.destutter_of_isChain _ _ (h.imp ne_of_lt).isChain

theorem mem_destutter' (xs : List α) (a x : α) :
    x ∈ xs.destutter' (· ≠ ·) a ↔ x = a ∨ x ∈ xs := by
  induction xs generalizing a with
  | nil => simp
  | cons y ys ih =>
    rw [List.destutter'_cons]
    split_ifs with hne
    · rw [List.mem_cons, ih, List.mem_cons]
    · rw [ih, List.mem_cons, ← not_ne_iff.mp hne]
      tauto

theorem mem_sortDedup (xs : List α) (x : α) : x ∈ sortDedup xs ↔ x ∈ xs := by
  rw [sortDedup, ← List.mem_insertionSort (· ≤ ·) (l := xs)]
  cases xs.insertionSort (· ≤ ·) with
  | nil => simp
  | cons y ys => rw [List.destutter_cons', mem_destutter', List.mem_cons]

end SortDedup
