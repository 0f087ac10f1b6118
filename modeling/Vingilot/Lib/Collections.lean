import Mathlib.Data.List.AList
import Mathlib.Data.List.Chain
import Mathlib.Data.List.Nodup

/-!
# Finite maps, and lists built without repeats

`Table` is a finite map whose keys are distinct by construction. All that is
proved of it goes through `get?`. `pushNew` is the loop body that asks a set
whether an item is new and then pushes it on a list.
-/

/-- A finite map. Each key has at most one value. -/
abbrev Table (κ ν : Type*) := AList (fun _ : κ => ν)

namespace Table

variable {κ ν : Type*} [DecidableEq κ]

def get? (t : Table κ ν) (k : κ) : Option ν := AList.lookup k t

/-- Rewrites the value at `k`, where `none` stands for an absent key. -/
def alter (t : Table κ ν) (k : κ) (f : Option ν → Option ν) : Table κ ν :=
  match f (get? t k) with
  | some v => AList.insert k v t
  | none => AList.erase k t

def set (t : Table κ ν) (k : κ) (v : ν) : Table κ ν := alter t k fun _ => some v

def remove (t : Table κ ν) (k : κ) : Table κ ν := alter t k fun _ => none

def toList (t : Table κ ν) : List (κ × ν) := t.entries.map fun e => (e.1, e.2)

@[simp]
theorem get?_empty (k : κ) : get? (∅ : Table κ ν) k = none := rfl

theorem get?_alter (t : Table κ ν) (k k' : κ) (f : Option ν → Option ν) :
    get? (alter t k f) k' = if k' = k then f (get? t k) else get? t k' := by
  unfold alter
  split <;> rename_i h
  · split_ifs with hk
    · subst hk; rw [h]; exact AList.lookup_insert t
    · exact AList.lookup_insert_ne hk
  · split_ifs with hk
    · subst hk; rw [h]; exact AList.lookup_erase k' t
    · exact AList.lookup_erase_ne hk

@[simp]
theorem get?_set (t : Table κ ν) (k k' : κ) (v : ν) :
    get? (set t k v) k' = if k' = k then some v else get? t k' := get?_alter ..

@[simp]
theorem get?_remove (t : Table κ ν) (k k' : κ) :
    get? (remove t k) k' = if k' = k then none else get? t k' := get?_alter ..

theorem mem_toList (t : Table κ ν) (k : κ) (v : ν) : (k, v) ∈ toList t ↔ get? t k = some v := by
  rw [get?, ← Option.mem_def, AList.mem_lookup_iff, toList, List.mem_map]
  constructor
  · rintro ⟨⟨k', v'⟩, hmem, heq⟩
    simp only [Prod.mk.injEq] at heq
    obtain ⟨rfl, rfl⟩ := heq
    exact hmem
  · intro h; exact ⟨⟨k, v⟩, h, rfl⟩

omit [DecidableEq κ] in
theorem nodup_keys (t : Table κ ν) : (toList t).Pairwise fun x y => x.1 ≠ y.1 := by
  rw [toList, List.pairwise_map]
  exact List.nodupKeys_iff_pairwise.mp t.nodupKeys

/-- Of two rows that the filter keeps, one has another key. -/
theorem exists_other_of_one_lt (t : Table κ ν) (p : κ × ν → Bool) (k : κ)
    (h : 1 < ((toList t).filter p).length) :
    ∃ k' v, get? t k' = some v ∧ p (k', v) = true ∧ k' ≠ k := by
  have hdistinct : ((toList t).filter p).Pairwise fun x y => x.1 ≠ y.1 := (nodup_keys t).filter p
  obtain ⟨x, y, rest, hlist⟩ : ∃ x y rest, (toList t).filter p = x :: y :: rest := by
    match hl : (toList t).filter p with
    | [] => simp [hl] at h
    | [x] => simp [hl] at h
    | x :: y :: rest => exact ⟨x, y, rest, rfl⟩
  rw [hlist] at hdistinct
  have hne : x.1 ≠ y.1 := by
    rw [List.pairwise_cons] at hdistinct
    exact hdistinct.1 y List.mem_cons_self
  have hmem : ∀ z ∈ (toList t).filter p, get? t z.1 = some z.2 ∧ p z = true := by
    intro z hz
    rw [List.mem_filter] at hz
    exact ⟨(mem_toList t z.1 z.2).mp hz.1, hz.2⟩
  by_cases hx : x.1 = k
  · obtain ⟨hget, hp⟩ := hmem y (by simp [hlist])
    exact ⟨y.1, y.2, hget, hp, fun hy => hne (hx.trans hy.symm)⟩
  · obtain ⟨hget, hp⟩ := hmem x (by simp [hlist])
    exact ⟨x.1, x.2, hget, hp, hx⟩

/-- Setting a key puts its row in front and keeps the other rows in their order. -/
theorem toList_set (t : Table κ ν) (k : κ) (v : ν) :
    toList (set t k v) = (k, v) :: (toList t).filter fun x => x.1 ≠ k := by
  have hkerase : ∀ l : List (Sigma fun _ : κ => ν), l.NodupKeys →
      (l.kerase k).map (fun e => (e.1, e.2)) =
        (l.map fun e => (e.1, e.2)).filter fun x => x.1 ≠ k := by
    intro l
    induction l with
    | nil => intro _; rfl
    | cons e l ih =>
      intro hnd
      rw [List.nodupKeys_cons] at hnd
      obtain ⟨hfirst, hrest⟩ := hnd
      by_cases hk : k = e.1
      · -- No other row has the key, so the filter keeps the rest whole.
        rw [List.kerase_cons_eq hk, List.map_cons, List.filter_cons_of_neg (by simp [hk]),
          List.filter_eq_self.mpr]
        intro x hx
        obtain ⟨e', hmem, rfl⟩ := List.mem_map.mp hx
        have hne : e'.1 ≠ k := by
          intro heq
          exact hfirst (hk ▸ heq ▸ List.mem_keys_of_mem hmem)
        simpa using hne
      · rw [List.kerase_cons_ne hk, List.map_cons, List.map_cons, ih hrest,
          List.filter_cons_of_pos (by simpa using Ne.symm hk)]
  have hentries : (set t k v).entries = ⟨k, v⟩ :: t.entries.kerase k := rfl
  rw [toList, hentries, List.map_cons, hkerase _ t.nodupKeys, toList]

/-- A row that the filter passes over neither shows nor moves the others. -/
theorem filter_toList_set_neg (t : Table κ ν) (k : κ) (v : ν) (p : κ × ν → Bool)
    (hnew : p (k, v) = false) (hold : ∀ v', get? t k = some v' → p (k, v') = false) :
    (toList (set t k v)).filter p = (toList t).filter p := by
  rw [toList_set, List.filter_cons_of_neg (by simp [hnew]), List.filter_filter]
  refine List.filter_congr ?_
  rintro ⟨k', v'⟩ hmem
  by_cases hk : k' = k
  · subst hk
    simp [hold v' ((mem_toList t _ v').mp hmem)]
  · simp [hk]

/-- A row that the filter keeps moves to the front. -/
theorem filter_toList_set_pos (t : Table κ ν) (k : κ) (v : ν) (p : κ × ν → Bool)
    (hnew : p (k, v) = true) :
    (toList (set t k v)).filter p = (k, v) :: ((toList t).filter p).filter fun x => x.1 ≠ k := by
  rw [toList_set, List.filter_cons_of_pos hnew, List.filter_filter, List.filter_filter]
  simp only [Bool.and_comm]

/-- Sets several rows, the last one last. -/
def setAll (t : Table κ ν) (rows : List (κ × ν)) : Table κ ν :=
  rows.foldl (fun t x => set t x.1 x.2) t

theorem get?_setAll_of_notMem (t : Table κ ν) (rows : List (κ × ν)) (k : κ)
    (h : ∀ v, (k, v) ∉ rows) : get? (setAll t rows) k = get? t k := by
  induction rows generalizing t with
  | nil => rfl
  | cons x rows ih =>
    rw [setAll, List.foldl_cons, ← setAll, ih _ fun v hv => h v (List.mem_cons_of_mem x hv),
      get?_set, if_neg]
    intro hk
    exact h x.2 (by rw [hk]; exact List.mem_cons_self)

theorem get?_setAll_of_unique (t : Table κ ν) (rows : List (κ × ν)) (k : κ) (v : ν)
    (hmem : (k, v) ∈ rows) (hone : ∀ v', (k, v') ∈ rows → v' = v) :
    get? (setAll t rows) k = some v := by
  induction rows generalizing t with
  | nil => cases hmem
  | cons x rows ih =>
    rw [setAll, List.foldl_cons, ← setAll]
    by_cases hlater : ∃ v', (k, v') ∈ rows
    · obtain ⟨v', hv'⟩ := hlater
      have heq := hone v' (List.mem_cons_of_mem x hv')
      subst heq
      exact ih _ hv' fun v'' hv'' => hone v'' (List.mem_cons_of_mem x hv'')
    · have hx : (k, v) = x := by
        rcases List.mem_cons.mp hmem with heq | htail
        · exact heq
        · exact absurd ⟨v, htail⟩ hlater
      rw [get?_setAll_of_notMem _ _ _ fun v' hv' => hlater ⟨v', hv'⟩, ← hx, get?_set, if_pos rfl]

theorem get?_setAll_eq_none (t : Table κ ν) (rows : List (κ × ν)) (k : κ) :
    get? (setAll t rows) k = none ↔ get? t k = none ∧ k ∉ rows.map Prod.fst := by
  induction rows generalizing t with
  | nil => simp [setAll]
  | cons x rows ih =>
    rw [setAll, List.foldl_cons, ← setAll, ih, get?_set, List.map_cons, List.mem_cons, not_or]
    by_cases hk : k = x.1 <;> simp [hk]

theorem get?_setAll_of_distinct (t : Table κ ν) {rows : List (κ × ν)}
    (h : rows.Pairwise fun x y => x.1 ≠ y.1) {k : κ} {v : ν} :
    get? (setAll t rows) k = some v ↔
      (k, v) ∈ rows ∨ (get? t k = some v ∧ ∀ v', (k, v') ∉ rows) := by
  have hone : ∀ v v', (k, v) ∈ rows → (k, v') ∈ rows → v' = v := by
    intro v v' hv hv'
    have hnodup : (rows.map Prod.fst).Nodup := List.pairwise_map.mpr h
    exact congrArg Prod.snd (List.inj_on_of_nodup_map hnodup hv' hv rfl)
  by_cases hmem : ∃ v', (k, v') ∈ rows
  · obtain ⟨v', hv'⟩ := hmem
    rw [get?_setAll_of_unique t rows k v' hv' fun w hw => hone v' w hv' hw]
    constructor
    · intro heq; cases heq; exact .inl hv'
    · rintro (hv | ⟨-, hnone⟩)
      · rw [hone v v' hv hv']
      · exact absurd hv' (hnone v')
  · have hnone : ∀ v', (k, v') ∉ rows := fun v' hv' => hmem ⟨v', hv'⟩
    rw [get?_setAll_of_notMem t rows k hnone]
    constructor
    · intro hget; exact .inr ⟨hget, hnone⟩
    · rintro (hv | ⟨hget, -⟩)
      · exact absurd hv (hnone v)
      · exact hget

/-- `UPDATE .. WHERE`: the rows that meet the condition change, the others stay. -/
theorem get?_setAll_update (t : Table κ ν) (p : κ × ν → Bool) (f : ν → ν) (k : κ) :
    get? (setAll t (((toList t).filter p).map fun x => (x.1, f x.2))) k =
      (get? t k).map fun v => if p (k, v) then f v else v := by
  have hrow : ∀ v', (k, v') ∈ ((toList t).filter p).map (fun x => (x.1, f x.2)) ↔
      ∃ v, get? t k = some v ∧ p (k, v) = true ∧ f v = v' := by
    intro v'
    simp only [List.mem_map, List.mem_filter, Prod.exists, Prod.mk.injEq, mem_toList]
    constructor
    · rintro ⟨k', v, ⟨hget, hp⟩, rfl, rfl⟩; exact ⟨v, hget, hp, rfl⟩
    · rintro ⟨v, hget, hp, rfl⟩; exact ⟨k, v, ⟨hget, hp⟩, rfl, rfl⟩
  cases hget : get? t k with
  | none =>
    rw [get?_setAll_of_notMem, hget]
    · rfl
    · intro v' hv'
      obtain ⟨v, hv, -⟩ := (hrow v').mp hv'
      rw [hget] at hv
      cases hv
  | some v =>
    by_cases hp : p (k, v) = true
    · rw [get?_setAll_of_unique t _ k (f v) ((hrow _).mpr ⟨v, hget, hp, rfl⟩)]
      · simp [hp]
      · intro v' hv'
        obtain ⟨v'', hv'', -, rfl⟩ := (hrow v').mp hv'
        rw [hget] at hv''
        cases hv''
        rfl
    · rw [get?_setAll_of_notMem, hget]
      · simp [hp]
      · intro v' hv'
        obtain ⟨v'', hv'', hp', -⟩ := (hrow v').mp hv'
        rw [hget] at hv''
        cases hv''
        exact hp hp'

/-- `DELETE .. WHERE`: the rows that do not meet the condition stay. -/
def removeWhere (t : Table κ ν) (p : κ × ν → Bool) : Table κ ν :=
  ((toList t).filter p).foldl (fun t x => remove t x.1) t

theorem get?_removeWhere (t : Table κ ν) (p : κ × ν → Bool) (k : κ) :
    get? (removeWhere t p) k = (get? t k).filter fun v => !p (k, v) := by
  have hfold : ∀ (rows : List (κ × ν)) (t' : Table κ ν),
      get? (rows.foldl (fun t x => remove t x.1) t') k =
        if k ∈ rows.map Prod.fst then none else get? t' k := by
    intro rows
    induction rows with
    | nil => intro t'; simp
    | cons x rows ih =>
      intro t'
      rw [List.foldl_cons, ih, get?_remove, List.map_cons]
      by_cases hx : k = x.1
      · simp [hx]
      · simp only [List.mem_cons, hx, false_or, if_false]
  have hmem : k ∈ ((toList t).filter p).map Prod.fst ↔ ∃ v, get? t k = some v ∧ p (k, v) = true := by
    simp [mem_toList]
  rw [removeWhere, hfold]
  simp only [hmem]
  cases hget : get? t k with
  | none => simp
  | some v =>
    by_cases hp : p (k, v) = true
    · simp [hp, Option.filter]
    · simp [hp, Option.filter]

end Table

/-! ## Lists without repeats -/

section PushNew

variable {α : Type*} [DecidableEq α]

/-- Adds `x` at the end unless the list already holds it. -/
def pushNew (xs : List α) (x : α) : List α := if x ∈ xs then xs else xs ++ [x]

theorem mem_pushNew (xs : List α) (x y : α) : y ∈ pushNew xs x ↔ y ∈ xs ∨ y = x := by
  unfold pushNew
  split_ifs with h
  · constructor
    · exact Or.inl
    · rintro (hy | rfl)
      · exact hy
      · exact h
  · simp

theorem nodup_pushNew {xs : List α} (x : α) (h : xs.Nodup) : (pushNew xs x).Nodup := by
  unfold pushNew
  split_ifs with hx
  · exact h
  · rw [List.nodup_append]
    refine ⟨h, List.nodup_singleton x, ?_⟩
    intro a ha b hb hab
    rw [List.mem_singleton] at hb
    exact hx (hb ▸ hab ▸ ha)

theorem mem_foldl_pushNew (acc xs : List α) (y : α) :
    y ∈ xs.foldl pushNew acc ↔ y ∈ acc ∨ y ∈ xs := by
  induction xs generalizing acc with
  | nil => simp
  | cons x xs ih => rw [List.foldl_cons, ih, mem_pushNew, List.mem_cons, or_assoc]

end PushNew

/-! ## Pages of sorted lists -/

/-- In a sorted list, an item with at most `n` items up to it is on the first page of `n`. -/
theorem mem_take_of_countP_le {α : Type*} (r : α → α → Prop) [DecidableRel r] (hrefl : ∀ x, r x x)
    {l : List α} {x : α} {n : Nat} (hsorted : l.Pairwise r) (hx : x ∈ l)
    (hcount : l.countP (fun y => decide (r y x)) ≤ n) : x ∈ l.take n := by
  obtain ⟨l₁, l₂, rfl⟩ := List.append_of_mem hx
  have hbefore : ∀ y ∈ l₁, decide (r y x) = true := by
    intro y hy
    exact decide_eq_true ((List.pairwise_append.mp hsorted).2.2 y hy x List.mem_cons_self)
  rw [List.countP_append, List.countP_eq_length.mpr hbefore,
    List.countP_cons_of_pos (by simp [hrefl])] at hcount
  obtain ⟨k, hk⟩ : ∃ k, n - l₁.length = k + 1 := ⟨n - l₁.length - 1, by omega⟩
  rw [List.take_append, hk, List.take_succ_cons]
  simp

/-! ## Lists linked by their keys -/

/-- The first item has no parent and every other one has the item before it. With keys that
differ, no item comes back. -/
theorem nodup_of_linked {α δ : Type*} (key : α → δ) (parent : α → Option δ) {xs : List α}
    (hfirst : ∀ x ∈ xs.head?, parent x = none)
    (hlinked : xs.IsChain fun x y => parent y = some (key x))
    (hkeys : ∀ x ∈ xs, ∀ y ∈ xs, key x = key y → x = y) : xs.Nodup := by
  rw [List.isChain_iff_getElem] at hlinked
  have hne : ∀ i j (hj : j < xs.length) (hij : i < j), xs[i] ≠ xs[j] := by
    intro i
    induction i with
    | zero =>
      intro j hj hij heq
      have hnone : parent xs[0] = none := hfirst _ (by simp [List.head?_eq_getElem?])
      obtain ⟨j, rfl⟩ : ∃ n, j = n + 1 := ⟨j - 1, by omega⟩
      rw [heq, hlinked j hj] at hnone
      cases hnone
    | succ i ih =>
      intro j hj hij heq
      obtain ⟨j, rfl⟩ : ∃ n, j = n + 1 := ⟨j - 1, by omega⟩
      -- Equal items have the same parent, so the items before them are equal too.
      have hparents : key xs[i] = key xs[j] := by
        have hi := hlinked i (by omega)
        rw [heq, hlinked j hj] at hi
        exact (Option.some.inj hi).symm
      exact ih j (by omega) (by omega)
        (hkeys _ (List.getElem_mem _) _ (List.getElem_mem _) hparents)
  refine List.pairwise_iff_getElem.mpr ?_
  intro i j hi hj hij
  exact hne i j hj hij
