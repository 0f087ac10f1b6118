import Mathlib.Data.List.Infix
import Mathlib.Data.List.TakeWhile
import Vingilot.Lib.Json

/-!
# Slices of a text by offsets in bytes

A text is a list of characters. An offset counts the bytes of its UTF-8, and a slice exists where the
offset is a border of two characters.
-/

namespace Slices

open Json (byteSize byteSize_append byteSize_cons byteSize_nil)

def isCharBoundary (text : List Char) (i : Nat) : Bool :=
  text.inits.any fun kept => byteSize kept == i

/-- The text before the offset. `none` inside a character or behind the end. -/
def sliceTo (text : List Char) (i : Nat) : Option (List Char) :=
  text.inits.find? fun kept => byteSize kept == i

def sliceFrom (text : List Char) (i : Nat) : Option (List Char) :=
  (sliceTo text i).map fun kept => text.drop kept.length

/-- The offset of the first character of a kind. -/
def findOffset (p : Char → Bool) : List Char → Option Nat
  | [] => none
  | c :: text => if p c then some 0 else (findOffset p text).map (· + c.utf8Size)

/-! ## Borders of characters -/

variable {text : List Char} {i : Nat}

theorem isCharBoundary_iff :
    isCharBoundary text i = true ↔ ∃ kept, kept <+: text ∧ byteSize kept = i := by
  unfold isCharBoundary
  simp

theorem byteSize_le_of_prefix {p q : List Char} (h : p <+: q) : byteSize p ≤ byteSize q := by
  obtain ⟨rest, rfl⟩ := h
  rw [byteSize_append]
  omega

theorem byteSize_eq_zero (h : byteSize text = 0) : text = [] := by
  rcases text with _ | ⟨c, text⟩
  · rfl
  · rw [byteSize_cons] at h
    have hpos := Char.utf8Size_pos c
    omega

/-- Of two prefixes the one that is not the longer in bytes is a prefix of the other. -/
theorem prefix_of_byteSize_le {p q : List Char} (hp : p <+: text) (hq : q <+: text)
    (h : byteSize q ≤ byteSize p) : q <+: p := by
  rcases List.prefix_or_prefix_of_prefix hq hp with hqp | ⟨rest, rfl⟩
  · exact hqp
  · rw [byteSize_append] at h
    rw [byteSize_eq_zero (by omega : byteSize rest = 0), List.append_nil]

/-! ## Slices -/

theorem sliceTo_of_boundary (h : isCharBoundary text i = true) :
    ∃ kept, sliceTo text i = some kept ∧ kept <+: text ∧ byteSize kept = i := by
  unfold sliceTo
  cases hfind : text.inits.find? fun kept => byteSize kept == i with
  | none =>
    rw [List.find?_eq_none] at hfind
    obtain ⟨kept, hprefix, hsize⟩ := isCharBoundary_iff.mp h
    exact absurd (beq_iff_eq.mpr hsize) (hfind kept ((List.mem_inits _ _).mpr hprefix))
  | some kept =>
    have hsize := List.find?_some hfind
    rw [beq_iff_eq] at hsize
    exact ⟨kept, rfl, (List.mem_inits _ _).mp (List.mem_of_find?_eq_some hfind), hsize⟩

theorem sliceTo_eq_some {kept : List Char} (h : sliceTo text i = some kept) :
    kept <+: text ∧ byteSize kept = i := by
  have hsize := List.find?_some h
  rw [beq_iff_eq] at hsize
  exact ⟨(List.mem_inits _ _).mp (List.mem_of_find?_eq_some h), hsize⟩

theorem sliceTo_append (kept rest : List Char) :
    sliceTo (kept ++ rest) (byteSize kept) = some kept := by
  obtain ⟨kept', hslice, hprefix, hsize⟩ := sliceTo_of_boundary
    (isCharBoundary_iff.mpr ⟨kept, List.prefix_append kept rest, rfl⟩)
  have hle := prefix_of_byteSize_le hprefix (List.prefix_append kept rest) hsize.ge
  have hge := prefix_of_byteSize_le (List.prefix_append kept rest) hprefix hsize.le
  rw [hslice, hge.eq_of_length_le hle.length_le]

theorem sliceFrom_append (kept rest : List Char) :
    sliceFrom (kept ++ rest) (byteSize kept) = some rest := by
  rw [sliceFrom, sliceTo_append, Option.map_some, List.drop_left]

/-! ## Offsets that are found -/

theorem findOffset_getD (p : Char → Bool) (text : List Char) :
    (findOffset p text).getD (byteSize text) = byteSize (text.takeWhile fun c => !p c) := by
  induction text with
  | nil => rfl
  | cons c text ih =>
    rw [findOffset, List.takeWhile_cons]
    by_cases hc : p c = true
    · simp [hc, byteSize_nil]
    · simp only [hc, Bool.false_eq_true, if_false, Bool.not_false, if_true, byteSize_cons]
      cases hfind : findOffset p text with
      | none =>
        rw [hfind] at ih
        rw [← ih]
        rfl
      | some i =>
        rw [hfind] at ih
        rw [← ih]
        exact Nat.add_comm _ _

theorem sliceFrom_findOffset (p : Char → Bool) (text : List Char) :
    sliceFrom text ((findOffset p text).getD (byteSize text)) =
      some (text.dropWhile fun c => !p c) := by
  rw [findOffset_getD]
  have h := sliceFrom_append (text.takeWhile fun c => !p c) (text.dropWhile fun c => !p c)
  rwa [List.takeWhile_append_dropWhile] at h

end Slices
