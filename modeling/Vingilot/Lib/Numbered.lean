import Vingilot.Lib.Collections

/-!
# Tables that hold numbered logs

The rows of one owner are numbered 1, 2, 3, .. in the order in which they were written. The next
number is the greatest one plus one.
-/

variable {κ ν : Type*} [DecidableEq κ]

/-- The rows of `k` are those of the list, numbered from 1 on. -/
def Numbered (t : Table (κ × Int) ν) (k : κ) (rows : List ν) : Prop :=
  ∀ n v, t.get? (k, n) = some v ↔ ∃ i : Nat, n = i + 1 ∧ rows[i]? = some v

/-- `COALESCE(MAX(seq), 0) + 1` over the rows of `k`. -/
def nextSeq (t : Table (κ × Int) ν) (k : κ) : Int :=
  (((t.toList.filter fun x => x.1.1 = k).map fun x => x.1.2).max?).getD 0 + 1

namespace Numbered

variable {t : Table (κ × Int) ν} {k k' : κ} {rows rows' : List ν}

theorem nil (h : ∀ n, t.get? (k, n) = none) : Numbered t k [] := by
  intro n v
  simp [h n]

theorem unique (h : Numbered t k rows) (h' : Numbered t k rows') : rows = rows' := by
  refine List.ext_getElem? ?_
  intro i
  refine Option.ext ?_
  intro v
  have hrow (rows : List ν) (h : Numbered t k rows) :
      t.get? (k, (i : Int) + 1) = some v ↔ rows[i]? = some v := by
    rw [h]
    constructor
    · rintro ⟨j, hj, hv⟩
      obtain rfl : i = j := by omega
      exact hv
    · intro hv; exact ⟨i, rfl, hv⟩
  rw [← hrow rows h, ← hrow rows' h']

theorem get?_eq_none (h : Numbered t k rows) {n : Int} (hn : n < 1 ∨ rows.length < n) :
    t.get? (k, n) = none := by
  rw [Option.eq_none_iff_forall_ne_some]
  intro v hv
  obtain ⟨i, rfl, hi⟩ := (h _ v).mp hv
  have hlt := (List.getElem?_eq_some_iff.mp hi).1
  omega

/-- The number after the last one is the length plus one. -/
theorem nextSeq_eq (h : Numbered t k rows) : nextSeq t k = rows.length + 1 := by
  have hmem (n : Int) : n ∈ (t.toList.filter fun x => x.1.1 = k).map (fun x => x.1.2) ↔
      1 ≤ n ∧ n ≤ rows.length := by
    simp only [List.mem_map, List.mem_filter, decide_eq_true_eq, Prod.exists]
    constructor
    · rintro ⟨k', n', v, ⟨hx, rfl⟩, rfl⟩
      obtain ⟨i, rfl, hi⟩ := (h _ v).mp ((Table.mem_toList ..).mp hx)
      have hlt := (List.getElem?_eq_some_iff.mp hi).1
      omega
    · rintro ⟨hpos, hle⟩
      obtain ⟨i, rfl⟩ : ∃ i : Nat, n = i + 1 := ⟨(n - 1).toNat, by omega⟩
      have hlt : i < rows.length := by omega
      exact ⟨k, i + 1, rows[i], ⟨(Table.mem_toList ..).mpr ((h _ _).mpr
        ⟨i, rfl, List.getElem?_eq_getElem hlt⟩), rfl⟩, rfl⟩
  unfold nextSeq
  cases hmax : ((t.toList.filter fun x => x.1.1 = k).map fun x => x.1.2).max? with
  | none =>
    have hnil := List.max?_eq_none_iff.mp hmax
    have hone := hmem 1
    rw [hnil] at hone
    have hzero : ¬ (1 : Int) ≤ rows.length := by simpa using hone
    simp only [Option.getD_none]
    omega
  | some m =>
    obtain ⟨hm, hall⟩ := List.max?_eq_some_iff.mp hmax
    have hbounds := (hmem m).mp hm
    have hlast := hall rows.length ((hmem _).mpr ⟨by omega, Int.le_refl _⟩)
    simp only [Option.getD_some]
    omega

theorem append (h : Numbered t k rows) (v : ν) :
    Numbered (t.set (k, nextSeq t k) v) k (rows ++ [v]) := by
  intro n w
  rw [h.nextSeq_eq, Table.get?_set]
  by_cases hn : n = rows.length + 1
  · subst hn
    simp only [if_true, Option.some.injEq]
    constructor
    · rintro rfl; exact ⟨rows.length, rfl, by simp⟩
    · rintro ⟨i, hi, hw⟩
      obtain rfl : rows.length = i := by omega
      simpa using hw
  · rw [if_neg (by simp [hn]), h]
    refine exists_congr fun i => and_congr_right fun hi => ?_
    have hne : i ≠ rows.length := by omega
    rcases Nat.lt_or_gt_of_ne hne with hlt | hgt
    · rw [List.getElem?_append_left hlt]
    · rw [List.getElem?_eq_none (by omega), List.getElem?_eq_none (by simp; omega)]

theorem set_other (h : Numbered t k rows) (hne : k ≠ k') (n : Int) (v : ν) :
    Numbered (t.set (k', n) v) k rows := by
  intro n' w
  rw [Table.get?_set, if_neg (by simp [hne]), h]

end Numbered
