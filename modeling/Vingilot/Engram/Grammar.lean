import Vingilot.Engram.Slugs
import Vingilot.Lib.Regular

/-!
# The grammar of slugs

The expression that `validate_slug` documents, over the bytes of a slug, and the scan that stands in
for it.
-/

namespace Vingilot.Engram

open RegularExpression

/-! ## The documented expression -/

def spanBytes (lo hi : Char) : Bytes :=
  (List.range' lo.toNat (hi.toNat + 1 - lo.toNat)).map Nat.toUInt8

/-- `[lo-hi]`. -/
def span (lo hi : Char) : RegularExpression UInt8 := oneOf (spanBytes lo hi)

/-- `[a-z0-9]`. -/
def alnumRegex : RegularExpression UInt8 := span 'a' 'z' + span '0' '9'

/-- `[a-z0-9_-]`. -/
def tailRegex : RegularExpression UInt8 := alnumRegex + (char (byte '_') + char (byte '-'))

/-- `[a-z0-9][a-z0-9_-]{0,63}`. -/
def segmentRegex : RegularExpression UInt8 := alnumRegex * upTo tailRegex 63

/-- `^mem/[a-z0-9][a-z0-9_-]{0,63}(/[a-z0-9][a-z0-9_-]{0,63})*$`. -/
def slugRegex : RegularExpression UInt8 :=
  word memPrefix * separated segmentRegex (byte '/')

/-! ## Letters -/

theorem isLowerAlnum_iff (b : UInt8) :
    isLowerAlnum b = true ↔ b ∈ spanBytes 'a' 'z' ∨ b ∈ spanBytes '0' '9' := by
  have hcodes : ∀ n < 256, isLowerAlnum n.toUInt8 = true ↔
      n.toUInt8 ∈ spanBytes 'a' 'z' ∨ n.toUInt8 ∈ spanBytes '0' '9' := by
    decide +kernel
  have hb := hcodes b.toNat b.toNat_lt
  rwa [show b.toNat.toUInt8 = b from UInt8.ofNat_toNat] at hb

theorem letters_span (lo hi : Char) : Letters (span lo hi) (· ∈ spanBytes lo hi) :=
  letters_oneOf _

theorem letters_alnumRegex : Letters alnumRegex fun b => isLowerAlnum b = true := by
  intro w
  simp only [isLowerAlnum_iff]
  exact ((letters_span 'a' 'z').add (letters_span '0' '9')) w

theorem letters_tailRegex :
    Letters tailRegex fun b => (isLowerAlnum b || b == byte '_' || b == byte '-') = true := by
  intro w
  have hletters := (letters_alnumRegex.add ((letters_char (byte '_')).add (letters_char (byte '-')))) w
  rw [tailRegex, hletters]
  simp only [Bool.or_eq_true, beq_iff_eq, or_assoc]

/-! ## The scan -/

theorem validateSegment_iff (s : Bytes) :
    validateSegment s = .ok () ↔ s ∈ segmentRegex.matches' := by
  unfold segmentRegex
  rw [mem_mul]
  rcases s with _ | ⟨first, rest⟩
  · refine iff_of_false (by simp [validateSegment]) ?_
    rintro ⟨x, hx, y, -, heq⟩
    obtain ⟨b, -, rfl⟩ := (letters_alnumRegex x).mp hx
    simp at heq
  · have hcheck : validateSegment (first :: rest) = .ok () ↔
        isLowerAlnum first = true ∧ rest.length ≤ 63 ∧
          ∀ b ∈ rest, (isLowerAlnum b || b == byte '_' || b == byte '-') = true := by
      unfold validateSegment
      simp only [List.length_cons]
      split_ifs with hlong hfirst hrest
      · refine iff_of_false (by simp) ?_
        rintro ⟨-, hlength, -⟩
        omega
      · refine iff_of_false (by simp) ?_
        rintro ⟨halnum, -⟩
        simp [halnum] at hfirst
      · refine iff_of_false (by simp) ?_
        rintro ⟨-, -, hall⟩
        simp only [Bool.not_eq_true', List.all_eq_false] at hrest
        obtain ⟨b, hb, hbad⟩ := hrest
        exact hbad (hall b hb)
      · simp only [Bool.not_eq_true', Bool.not_eq_false, List.all_eq_true] at hfirst hrest
        exact iff_of_true rfl ⟨hfirst, by omega, hrest⟩
    rw [hcheck]
    constructor
    · rintro ⟨hfirst, hlength, hrest⟩
      exact ⟨[first], (letters_alnumRegex _).mpr ⟨first, hfirst, rfl⟩, rest,
        (mem_upTo letters_tailRegex).mpr ⟨hlength, hrest⟩, rfl⟩
    · rintro ⟨x, hx, y, hy, heq⟩
      obtain ⟨b, hb, rfl⟩ := (letters_alnumRegex x).mp hx
      obtain ⟨hlength, hall⟩ := (mem_upTo letters_tailRegex).mp hy
      rw [List.singleton_append, List.cons.injEq] at heq
      obtain ⟨rfl, rfl⟩ := heq
      exact ⟨hb, hlength, hall⟩

theorem validateSegments_iff (number : Nat) (segments : List Bytes) :
    validateSegments number segments = .ok () ↔ ∀ s ∈ segments, validateSegment s = .ok () := by
  induction segments generalizing number with
  | nil => simp [validateSegments]
  | cons s segments ih =>
    unfold validateSegments
    cases h : validateSegment s with
    | error why => simp [h]
    | ok => simp [h, ih]

theorem slash_not_mem_segment {s : Bytes} (h : s ∈ segmentRegex.matches') : byte '/' ∉ s := by
  rw [← validateSegment_iff] at h
  intro hmem
  unfold validateSegment at h
  split at h
  · simp at hmem
  · split_ifs at h with hlong hfirst hrest
    simp only [Bool.not_eq_true', Bool.not_eq_false, List.all_eq_true] at hfirst hrest
    rcases List.mem_cons.mp hmem with rfl | hmem
    · exact absurd hfirst (by decide)
    · exact absurd (hrest _ hmem) (by decide)

theorem segments_iff (rest : Bytes) :
    (∀ s ∈ rest.splitOn (byte '/'), validateSegment s = .ok ()) ↔
      rest ∈ (separated segmentRegex (byte '/')).matches' := by
  rw [mem_separated]
  simp only [validateSegment_iff]
  constructor
  · intro h
    exact ⟨_, List.splitOn_ne_nil _ _, (List.intercalate_splitOn _).symm, h⟩
  · rintro ⟨parts, hne, rfl, hparts⟩
    rw [List.splitOn_intercalate _ (fun p hp => slash_not_mem_segment (hparts p hp)) hne]
    exact hparts

theorem validateSlug_iff (slug : Bytes) :
    validateSlug slug = .ok () ↔
      slug.length ≤ slugMaxLen ∧ (slug = coreSlug ∨ slug ∈ slugRegex.matches') := by
  have hregex : slug ∈ slugRegex.matches' ↔
      ∃ rest, slug = memPrefix ++ rest ∧ rest ∈ (separated segmentRegex (byte '/')).matches' := by
    unfold slugRegex
    rw [mem_mul]
    constructor
    · rintro ⟨x, hx, rest, hrest, rfl⟩
      exact ⟨rest, by rw [mem_word.mp hx], hrest⟩
    · rintro ⟨rest, rfl, hrest⟩
      exact ⟨memPrefix, mem_word.mpr rfl, rest, hrest, rfl⟩
  rw [hregex]
  unfold validateSlug
  split_ifs with hcore hlong hprefix
  · subst hcore
    exact iff_of_true rfl ⟨by decide, Or.inl rfl⟩
  · exact iff_of_false (by simp) fun h => absurd h.1 (by omega)
  · refine iff_of_false (by simp) ?_
    rintro ⟨-, hslug | ⟨rest, rfl, -⟩⟩
    · exact hcore hslug
    · have hfull := List.isPrefixOf_iff_prefix.mpr (List.prefix_append memPrefix rest)
      rw [hfull] at hprefix
      cases hprefix
  · simp only [Bool.not_eq_true', Bool.not_eq_false] at hprefix
    obtain ⟨rest, rfl⟩ := List.isPrefixOf_iff_prefix.mp hprefix
    simp only [List.drop_left, hcore, false_or, List.append_cancel_left_eq, exists_eq_left',
      and_iff_right (not_lt.mp hlong)]
    split_ifs with hempty
    · rw [List.isEmpty_iff] at hempty
      subst hempty
      refine iff_of_false (by simp) ?_
      rw [← segments_iff]
      decide
    · rw [validateSegments_iff, segments_iff]

/-! ## Shorthands -/

def normalizeSlug (raw : Bytes) : Except EngramError Bytes :=
  let slug := if raw = coreSlug ∨ memPrefix.isPrefixOf raw then raw else memPrefix ++ raw
  match validateSlug slug with
  | .error e => .error e
  | .ok () => .ok slug

theorem normalizeSlug_ok {raw slug : Bytes} (h : normalizeSlug raw = .ok slug) :
    validateSlug slug = .ok () ∧ (slug = coreSlug ∨ memPrefix.isPrefixOf slug) := by
  unfold normalizeSlug at h
  simp only at h
  split at h
  · simp at h
  · rename_i hvalid
    rw [Except.ok.injEq] at h
    rw [h] at hvalid
    refine ⟨hvalid, ?_⟩
    split_ifs at h with hfull
    · rwa [h] at hfull
    · refine Or.inr ?_
      rw [← h]
      simp

theorem normalizeSlug_of_valid {slug : Bytes} (hvalid : validateSlug slug = .ok ())
    (hfull : slug = coreSlug ∨ memPrefix.isPrefixOf slug) : normalizeSlug slug = .ok slug := by
  unfold normalizeSlug
  simp only [if_pos hfull, hvalid]

/-- `validate_slug` takes what the documented expression matches, and `normalize_slug` what it
takes; a second time it changes nothing. -/
theorem slug_grammar :
    (∀ slug, validateSlug slug = .ok () ↔
        slug.length ≤ slugMaxLen ∧ (slug = coreSlug ∨ slug ∈ slugRegex.matches')) ∧
      (∀ raw, (normalizeSlug raw).bind normalizeSlug = normalizeSlug raw) ∧
      ∀ raw slug, normalizeSlug raw = .ok slug → validateSlug slug = .ok () := by
  refine ⟨validateSlug_iff, fun raw => ?_, fun raw slug h => (normalizeSlug_ok h).1⟩
  cases h : normalizeSlug raw with
  | error e => rfl
  | ok slug =>
    obtain ⟨hvalid, hfull⟩ := normalizeSlug_ok h
    exact normalizeSlug_of_valid hvalid hfull

end Vingilot.Engram
