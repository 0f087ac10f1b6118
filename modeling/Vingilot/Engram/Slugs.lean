import Mathlib.Data.List.Basic
import Vingilot.Lib.Codes

/-!
# The slugs of engrams (`buzz-core/src/engram.rs`)

A string is its UTF-8 bytes here, as `validate_slug` and `extract_refs` read it.
-/

namespace Vingilot.Engram

abbrev Bytes := List UInt8

def bytesOf (s : String) : Bytes := Codes.utf8 s.toList

def coreSlug : Bytes := bytesOf "core"
def slugMaxLen : Nat := 255
def memPrefix : Bytes := bytesOf "mem/"

/-- What stands in the text of `InvalidSlug`. -/
inductive SlugFault where
  /-- `length {} exceeds {}`. -/
  | tooLong (length max : Nat)
  /-- `` expected `core` or `mem/…`, got {:?} ``. -/
  | noPrefix (slug : Bytes)
  /-- `` empty after `mem/` ``. -/
  | emptyRest
  /-- `segment {} ({:?}): {}`. -/
  | segment (number : Nat) (segment : Bytes) (why : String)
deriving DecidableEq

/-- What stands in the text of `InvalidBody`. -/
inductive BodyFault where
  /-- `invalid JSON body: {e}` or `trailing data after JSON body: {e}`, with the reader's text. -/
  | json
  /-- `invalid JSON body: duplicate object member name: {k}`, with a position. -/
  | duplicate (key : String)
  | shape (why : String)
deriving DecidableEq

inductive EngramError where
  | invalidSlug (fault : SlugFault)
  | invalidBody (fault : BodyFault)
deriving DecidableEq

def byte (c : Char) : UInt8 := c.toNat.toUInt8

def isLowerAlnum (b : UInt8) : Bool :=
  decide (byte 'a' ≤ b ∧ b ≤ byte 'z' ∨ byte '0' ≤ b ∧ b ≤ byte '9')

def validateSegment (s : Bytes) : Except String Unit :=
  match s with
  | [] => .error "empty"
  | first :: rest =>
    if 64 < s.length then .error "longer than 64 bytes"
    else if !isLowerAlnum first then .error "first byte must be [a-z0-9]"
    else if !rest.all fun b => isLowerAlnum b || b == byte '_' || b == byte '-' then
      .error "only [a-z0-9_-] allowed after the first byte"
    else .ok ()

def validateSegments (number : Nat) : List Bytes → Except EngramError Unit
  | [] => .ok ()
  | segment :: rest =>
    match validateSegment segment with
    | .error why => .error (.invalidSlug (.segment number segment why))
    | .ok () => validateSegments (number + 1) rest

def validateSlug (slug : Bytes) : Except EngramError Unit :=
  if slug = coreSlug then .ok ()
  else if slugMaxLen < slug.length then .error (.invalidSlug (.tooLong slug.length slugMaxLen))
  else if !memPrefix.isPrefixOf slug then .error (.invalidSlug (.noPrefix slug))
  else
    let rest := slug.drop memPrefix.length
    if rest.isEmpty then .error (.invalidSlug .emptyRest)
    else validateSegments 1 (rest.splitOn (byte '/'))

def IsSlug (slug : Bytes) : Prop := validateSlug slug = .ok ()

instance (slug : Bytes) : Decidable (IsSlug slug) :=
  inferInstanceAs (Decidable (validateSlug slug = .ok ()))

/-! ## The letters of a slug -/

/-- `[a-z0-9_-]` or the slash. -/
def isSlugByte (b : UInt8) : Bool :=
  isLowerAlnum b || b == byte '_' || b == byte '-' || b == byte '/'

theorem isSlugByte_of_validateSegment {s : Bytes} (h : validateSegment s = .ok ()) :
    ∀ b ∈ s, isSlugByte b = true := by
  unfold validateSegment at h
  split at h
  · simp at h
  · split_ifs at h with hlong hfirst hrest
    simp only [Bool.not_eq_true', Bool.not_eq_false, List.all_eq_true] at hfirst hrest
    intro b hb
    unfold isSlugByte
    rcases List.mem_cons.mp hb with rfl | hb
    · simp [hfirst]
    · have hbyte := hrest b hb
      simp only [Bool.or_eq_true] at hbyte ⊢
      exact Or.inl hbyte

theorem validateSegments_ok {number : Nat} {segments : List Bytes}
    (h : validateSegments number segments = .ok ()) :
    ∀ s ∈ segments, validateSegment s = .ok () := by
  induction segments generalizing number with
  | nil => simp
  | cons segment rest ih =>
    unfold validateSegments at h
    split at h
    · cases h
    · rename_i hsegment
      intro s hs
      rcases List.mem_cons.mp hs with rfl | hs
      · exact hsegment
      · exact ih h s hs

theorem IsSlug.bytes {slug : Bytes} (h : IsSlug slug) : ∀ b ∈ slug, isSlugByte b = true := by
  unfold IsSlug validateSlug at h
  split_ifs at h with hcore hlong hprefix
  · rw [hcore]
    exact List.all_eq_true.mp (by decide)
  · simp only [Bool.not_eq_true', Bool.not_eq_false] at hprefix
    obtain ⟨rest, rfl⟩ := List.isPrefixOf_iff_prefix.mp hprefix
    simp only [List.drop_left] at h
    split_ifs at h
    have hmem : ∀ b ∈ memPrefix, isSlugByte b = true := List.all_eq_true.mp (by decide)
    have hletters : ∀ b ∈ rest, isSlugByte b = true :=
      Codes.mem_of_splitOn (byte '/') (by decide) fun s hs =>
        isSlugByte_of_validateSegment (validateSegments_ok h s hs)
    intro b hb
    rcases List.mem_append.mp hb with hb | hb
    · exact hmem b hb
    · exact hletters b hb

theorem IsSlug.ne_nil {slug : Bytes} (h : IsSlug slug) : slug ≠ [] := by
  rintro rfl
  revert h
  decide

end Vingilot.Engram
