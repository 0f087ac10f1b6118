import Vingilot.Coordinator.Evidence
import Vingilot.Lib.Slices

/-!
# Bounding a diff (`executor/src/lib.rs`)

`bound_diff` cuts a diff that is too long for a row of evidence and says so at its end. `&diff[..cut]`
panics inside a character, which is `none` here.
-/

namespace Vingilot.Coordinator.Evidence

open Slices
open Json (byteSize byteSize_append byteSize_cons byteSize_nil)

def maxDiffEvidenceBytes : Nat := 48 * 1024

def stepBack (text : List Char) : Nat → Nat
  | 0 => 0
  | cut + 1 => if isCharBoundary text (cut + 1) then cut + 1 else stepBack text cut

def truncationMarker (total : Nat) : String :=
  "\n... [truncated, " ++ String.ofList (Nat.toDigits 10 total) ++ " bytes total]\n"

def boundDiff (diff : String) : Option String :=
  let total := diff.utf8ByteSize
  if total ≤ maxDiffEvidenceBytes then some diff
  else
    let marker := truncationMarker total
    let budget := maxDiffEvidenceBytes - marker.utf8ByteSize
    let cut := stepBack diff.toList (min budget total)
    (sliceTo diff.toList cut).map fun kept => String.ofList kept ++ marker

/-! ## The cut -/

theorem stepBack_le (text : List Char) (n : Nat) : stepBack text n ≤ n := by
  induction n with
  | zero => exact le_refl 0
  | succ n ih =>
    unfold stepBack
    split_ifs
    · exact le_refl _
    · omega

theorem isCharBoundary_stepBack (text : List Char) (n : Nat) :
    isCharBoundary text (stepBack text n) = true := by
  induction n with
  | zero => exact isCharBoundary_iff.mpr ⟨[], List.nil_prefix, byteSize_nil⟩
  | succ n ih =>
    unfold stepBack
    split_ifs with h
    · exact h
    · exact ih

theorem le_stepBack {text : List Char} {i n : Nat} (hi : i ≤ n) (h : isCharBoundary text i = true) :
    i ≤ stepBack text n := by
  induction n with
  | zero => exact hi
  | succ n ih =>
    unfold stepBack
    split_ifs with hn
    · exact hi
    · apply ih
      rcases Nat.lt_or_eq_of_le hi with hlt | rfl
      · omega
      · exact absurd h hn

theorem sliceTo_stepBack (text : List Char) (n : Nat) :
    ∃ kept, sliceTo text (stepBack text n) = some kept ∧ kept <+: text ∧ byteSize kept ≤ n ∧
      ∀ p, p <+: text → byteSize p ≤ n → p <+: kept := by
  obtain ⟨kept, hslice, hprefix, hsize⟩ := sliceTo_of_boundary (isCharBoundary_stepBack text n)
  refine ⟨kept, hslice, hprefix, hsize ▸ stepBack_le text n, fun p hp hfits => ?_⟩
  apply prefix_of_byteSize_le hprefix hp
  rw [hsize]
  exact le_stepBack hfits (isCharBoundary_iff.mpr ⟨p, hp, rfl⟩)

/-! ## The marker -/

theorem byteSize_digits {digits : List Char} (h : ∀ c ∈ digits, Json.isDigit c = true) :
    byteSize digits = digits.length := by
  induction digits with
  | nil => rfl
  | cons c digits ih =>
    have hc : c.utf8Size = 1 := by
      have hdigit := h c (List.mem_cons_self)
      simp only [Json.isDigit, decide_eq_true_eq, Char.le_def, UInt32.le_iff_toNat_le] at hdigit
      rw [Char.utf8Size_eq_one_iff, UInt32.le_iff_toNat_le]
      exact hdigit.2.trans (by decide)
    rw [byteSize_cons, hc, ih fun d hd => h d (List.mem_cons_of_mem _ hd), List.length_cons]
    omega

theorem size_truncationMarker_le {total : Nat} (h : total < 2 ^ 63) :
    (truncationMarker total).utf8ByteSize ≤ 51 := by
  have hstart : "\n... [truncated, ".utf8ByteSize = 17 := by decide
  have hend : " bytes total]\n".utf8ByteSize = 14 := by decide
  have hdigits : (Nat.toDigits 10 total).length ≤ 19 := by
    apply (Nat.length_toDigits_le_iff (by decide) (by decide)).mpr
    exact h.trans (by decide)
  have hsize : (String.ofList (Nat.toDigits 10 total)).utf8ByteSize ≤ 20 := by
    have hbytes := byteSize_digits (Json.isDigit_of_mem_toDigits (n := total))
    unfold byteSize at hbytes
    omega
  unfold truncationMarker
  rw [String.utf8ByteSize_append, String.utf8ByteSize_append, hstart, hend]
  omega

/-! ## What goes into the row -/

/-- A diff within the cap is kept. A longer one keeps its longest prefix that fits with the marker,
and either result fits into a row. -/
theorem bound_diff_longest_prefix (diff : String) (hlen : diff.utf8ByteSize < 2 ^ 63) :
    ∃ out, boundDiff diff = some out ∧ out.utf8ByteSize ≤ maxDiffEvidenceBytes ∧
      out.utf8ByteSize ≤ maxContentBytes ∧
      (diff.utf8ByteSize ≤ maxDiffEvidenceBytes → out = diff) ∧
      (maxDiffEvidenceBytes < diff.utf8ByteSize → ∃ kept, kept <+: diff.toList ∧
        out = String.ofList kept ++ truncationMarker diff.utf8ByteSize ∧
        ∀ p, p <+: diff.toList → (p <+: kept ↔
          (String.ofList p ++ truncationMarker diff.utf8ByteSize).utf8ByteSize ≤
            maxDiffEvidenceBytes)) := by
  have hmarker := size_truncationMarker_le hlen
  have hcap : maxDiffEvidenceBytes ≤ maxContentBytes := by decide
  have hroom : 51 ≤ maxDiffEvidenceBytes := by decide
  rcases Nat.lt_or_ge maxDiffEvidenceBytes diff.utf8ByteSize with hlong | hshort
  · obtain ⟨kept, hslice, hprefix, hsize, hlongest⟩ := sliceTo_stepBack diff.toList
      (min (maxDiffEvidenceBytes - (truncationMarker diff.utf8ByteSize).utf8ByteSize)
        diff.utf8ByteSize)
    have htotal : ∀ p : List Char, (String.ofList p ++
        truncationMarker diff.utf8ByteSize).utf8ByteSize =
          byteSize p + (truncationMarker diff.utf8ByteSize).utf8ByteSize := by
      intro p
      rw [String.utf8ByteSize_append]
      rfl
    have hfits := htotal kept
    refine ⟨String.ofList kept ++ truncationMarker diff.utf8ByteSize, ?_, by omega, by omega,
      fun h => absurd h (by omega), fun _ => ⟨kept, hprefix, rfl, fun p hp => ?_⟩⟩
    · unfold boundDiff
      simp only [if_neg (not_le.mpr hlong), hslice, Option.map_some]
    · have hp' := htotal p
      constructor
      · intro hpk
        have hle := byteSize_le_of_prefix hpk
        omega
      · intro hle
        apply hlongest p hp
        have hwhole := byteSize_le_of_prefix hp
        rw [Json.byteSize_toList] at hwhole
        omega
  · refine ⟨diff, ?_, hshort, hshort.trans hcap, fun _ => rfl, fun h => absurd h (by omega)⟩
    unfold boundDiff
    simp only [if_pos hshort]

theorem byteSize_accents (n : Nat) : byteSize (List.replicate n 'é') = 2 * n := by
  induction n with
  | zero => exact byteSize_nil
  | succ n ih =>
    have hsize : ('é' : Char).utf8Size = 2 := by decide
    rw [List.replicate_succ, byteSize_cons, ih, hsize]
    omega

def longDiff (n : Nat) : String := String.ofList (List.replicate n 'é')

theorem bound_diff_longest_prefix_long :
    ∃ out kept, boundDiff (longDiff 30000) = some out ∧ out.utf8ByteSize ≤ maxDiffEvidenceBytes ∧
      kept <+: (longDiff 30000).toList ∧
      out = String.ofList kept ++ truncationMarker (longDiff 30000).utf8ByteSize := by
  have hsize : (longDiff 30000).utf8ByteSize = 60000 := by
    rw [← Json.byteSize_toList, longDiff, String.toList_ofList, byteSize_accents]
  obtain ⟨out, hout, hcap, -, -, hlong⟩ := bound_diff_longest_prefix (longDiff 30000)
    (by rw [hsize]; decide)
  obtain ⟨kept, hprefix, heq, -⟩ := hlong (by rw [hsize]; decide)
  exact ⟨out, kept, hout, hcap, hprefix, heq⟩

end Vingilot.Coordinator.Evidence
