import Vingilot.Lib.Codes
import Vingilot.Lib.Json
import Vingilot.GitPerms.Rules

/-!
# What a ref pattern means

A pattern and a ref are compared segment by segment, in one definition over their texts. The parsed
pattern is compared with the ref in the same way, whatever it was parsed from.
-/

namespace Vingilot.GitPerms

/-! ## The grammar -/

/-- A literal or `*`. -/
def isSegmentText (part : List Char) : Bool :=
  part = "*".toList || (!part.isEmpty && part.all isLiteralChar)

def isWildcardText (part : List Char) : Bool := part = "*".toList || part = "**".toList

/-- What the comments on `RefPattern` and on the two limits say. -/
structure Documented (pattern : List Char) : Prop where
  refs : "refs/".toList.isPrefixOf pattern = true
  segments : ∀ part ∈ pattern.splitOn '/', isSegmentText part = true
  length : pattern.length ≤ maxPatternLength
  wildcards : (pattern.splitOn '/').countP isWildcardText ≤ maxWildcardsPerPattern

/-- The same, where the last segment may also be `**`. -/
structure WellFormed (pattern : List Char) : Prop where
  refs : "refs/".toList.isPrefixOf pattern = true
  segments : ∀ part ∈ pattern.splitOn '/', isSegmentText part = true ∨ part = "**".toList
  recursive_last : "**".toList ∉ (pattern.splitOn '/').dropLast
  length : pattern.length ≤ maxPatternLength
  wildcards : (pattern.splitOn '/').countP isWildcardText ≤ maxWildcardsPerPattern

inductive Matches : List (List Char) → List (List Char) → Prop
  | done : Matches [] []
  | literal {text : List Char} {parts segments : List (List Char)}
      (htext : isWildcardText text = false) (h : Matches parts segments) :
      Matches (text :: parts) (text :: segments)
  | wildcard {segment : List Char} {parts segments : List (List Char)}
      (h : Matches parts segments) : Matches ("*".toList :: parts) (segment :: segments)
  | recursive {segment : List Char} {segments : List (List Char)} :
      Matches ["**".toList] (segment :: segments)

/-! ## Reading the segments -/

def readSegment (part : List Char) : PatternSegment :=
  if part = "**".toList then .recursiveWildcard
  else if part = "*".toList then .wildcard
  else .literal part

/-- What the loop of `parse` lets through. -/
structure Readable (parts : List (List Char)) : Prop where
  segments : ∀ part ∈ parts, isSegmentText part = true ∨ part = "**".toList
  recursive_last : "**".toList ∉ parts.dropLast

variable {part : List Char}

theorem readable_cons {rest : List (List Char)} (hpart : part ≠ "**".toList) :
    Readable (part :: rest) ↔ isSegmentText part = true ∧ Readable rest := by
  have hlast : "**".toList ∉ (part :: rest).dropLast ↔ "**".toList ∉ rest.dropLast := by
    cases rest with
    | nil => simp
    | cons second more =>
      rw [List.dropLast_cons_of_ne_nil (by simp), List.mem_cons, not_or,
        and_iff_right (Ne.symm hpart)]
  constructor
  · intro h
    refine ⟨(h.segments part List.mem_cons_self).resolve_right hpart, fun p hp => ?_,
      hlast.mp h.recursive_last⟩
    exact h.segments p (List.mem_cons_of_mem _ hp)
  · rintro ⟨hsegment, h⟩
    refine ⟨?_, hlast.mpr h.recursive_last⟩
    rw [List.forall_mem_cons]
    exact ⟨.inl hsegment, h.segments⟩

theorem readable_recursive {rest : List (List Char)} :
    Readable ("**".toList :: rest) ↔ rest = [] := by
  constructor
  · intro h
    by_contra hne
    apply h.recursive_last
    rw [List.dropLast_cons_of_ne_nil hne]
    exact List.mem_cons_self
  · rintro rfl
    exact ⟨by simp, by simp⟩

theorem isSegmentText_literal (hstar : part ≠ "*".toList) :
    isSegmentText part = true ↔ part ≠ [] ∧ part.all isLiteralChar = true := by
  rw [isSegmentText, decide_eq_false hstar, Bool.false_or, Bool.and_eq_true, Bool.not_eq_true',
    List.isEmpty_eq_false_iff]

theorem no_glob_of_literal (h : part.all isLiteralChar = true) :
    ¬ ('*' ∈ part ∨ '?' ∈ part ∨ '[' ∈ part ∨ ']' ∈ part) := by
  have hchar : ∀ c, isLiteralChar c = false → c ∉ part := by
    intro c hc hmem
    have hliteral := List.all_eq_true.mp h c hmem
    rw [hc] at hliteral
    cases hliteral
  rintro (h | h | h | h)
  · exact hchar _ rfl h
  · exact hchar _ rfl h
  · exact hchar _ rfl h
  · exact hchar _ rfl h

theorem bind_cons_ok {first : PatternSegment} {segments : List PatternSegment}
    {result : Except PatternError (List PatternSegment)} :
    (do return first :: (← result)) = Except.ok segments ↔
      ∃ tail, result = .ok tail ∧ segments = first :: tail := by
  cases result with
  | error e => simp [bind, Except.bind]
  | ok tail => simp [bind, Except.bind, pure, Except.pure, eq_comm]

variable {parts : List (List Char)}

theorem parseSegments_ok_iff {count : Nat} {segments : List PatternSegment}
    (hcount : count ≤ maxWildcardsPerPattern) : parseSegments count parts = .ok segments ↔
      Readable parts ∧ count + parts.countP isWildcardText ≤ maxWildcardsPerPattern ∧
        segments = parts.map readSegment := by
  induction parts generalizing count segments with
  | nil =>
    have hnil : Readable [] := ⟨by simp, by simp⟩
    simp [parseSegments, hnil, hcount, eq_comm]
  | cons part rest ih =>
    rw [parseSegments]
    by_cases hrecursive : part = "**".toList
    · subst hrecursive
      rw [if_pos rfl, readable_recursive]
      by_cases hrest : rest = []
      · subst hrest
        rw [if_neg (by simp), List.countP_cons_of_pos (by decide), List.countP_nil]
        split_ifs with hfull
        · simp only [true_and, false_iff]
          omega
        · have hroom : count + (0 + 1) ≤ maxWildcardsPerPattern := by omega
          simp [hroom, readSegment, eq_comm]
      · simp [hrest]
    · rw [if_neg hrecursive, readable_cons hrecursive, List.map_cons]
      by_cases hstar : part = "*".toList
      · subst hstar
        rw [if_pos rfl, List.countP_cons_of_pos (by decide)]
        split_ifs with hfull
        · simp only [false_iff]
          omega
        · rw [bind_cons_ok]
          have hread : readSegment "*".toList = .wildcard := by decide
          have htext : isSegmentText "*".toList = true := by decide
          constructor
          · rintro ⟨tail, htail, rfl⟩
            obtain ⟨hreadable, hwildcards, rfl⟩ := (ih (by omega)).mp htail
            exact ⟨⟨htext, hreadable⟩, by omega, by rw [hread]⟩
          · rintro ⟨⟨-, hreadable⟩, hwildcards, rfl⟩
            exact ⟨_, (ih (by omega)).mpr ⟨hreadable, by omega, rfl⟩, by rw [hread]⟩
      · have hwild : isWildcardText part = false := by
          rw [isWildcardText, decide_eq_false hstar, decide_eq_false hrecursive, Bool.or_self]
        rw [if_neg hstar, isSegmentText_literal hstar,
          List.countP_cons_of_neg (by simp [hwild])]
        have hread : readSegment part = .literal part := by
          rw [readSegment, if_neg hrecursive, if_neg hstar]
        split_ifs with hempty hglob hliteral
        · simp [hempty]
        · simp only [false_iff]
          exact fun h => no_glob_of_literal h.1.1.2 hglob
        · simp only [false_iff]
          rintro ⟨⟨⟨-, hall⟩, -⟩, -⟩
          rw [hall] at hliteral
          cases hliteral
        · rw [bind_cons_ok]
          have hall : part.all isLiteralChar = true := by simpa using hliteral
          constructor
          · rintro ⟨tail, htail, rfl⟩
            obtain ⟨hreadable, hwildcards, rfl⟩ := (ih hcount).mp htail
            exact ⟨⟨⟨hempty, hall⟩, hreadable⟩, hwildcards, by rw [hread]⟩
          · rintro ⟨⟨-, hreadable⟩, hwildcards, rfl⟩
            exact ⟨_, (ih hcount).mpr ⟨hreadable, hwildcards, rfl⟩, by rw [hread]⟩

/-! ## Parsing -/

theorem utf8Size_of_isLiteralChar {c : Char} (h : isLiteralChar c = true) : c.utf8Size = 1 := by
  rw [Char.utf8Size_eq_one_iff]
  unfold isLiteralChar Char.isAlphanum Char.isAlpha Char.isUpper Char.isLower Char.isDigit at h
  simp only [Bool.or_eq_true, Bool.and_eq_true, decide_eq_true_eq, beq_iff_eq] at h
  rcases h with ((((h | h) | h) | rfl) | rfl) | rfl
  · exact UInt32.le_trans h.2 (by decide)
  · exact UInt32.le_trans h.2 (by decide)
  · exact UInt32.le_trans h.2 (by decide)
  · decide
  · decide
  · decide

variable {pattern : List Char}

theorem utf8Size_of_segments
    (h : ∀ part ∈ pattern.splitOn '/', isSegmentText part = true ∨ part = "**".toList) :
    ∀ c ∈ pattern, c.utf8Size = 1 := by
  refine Codes.mem_of_splitOn '/' (by decide) fun part hpart c hmem => ?_
  rcases h part hpart with hsegment | rfl
  · simp only [isSegmentText, Bool.or_eq_true, Bool.and_eq_true, decide_eq_true_eq] at hsegment
    rcases hsegment with rfl | ⟨-, hall⟩
    · obtain rfl : c = '*' := by simpa using hmem
      decide
    · exact utf8Size_of_isLiteralChar (List.all_eq_true.mp hall c hmem)
  · obtain rfl : c = '*' := by simpa using hmem
    decide

theorem byteSize_eq_length {text : List Char} (h : ∀ c ∈ text, c.utf8Size = 1) :
    Json.byteSize text = text.length := by
  induction text with
  | nil => rfl
  | cons c text ih =>
    rw [Json.byteSize_cons, h c List.mem_cons_self, List.length_cons,
      ih fun d hd => h d (List.mem_cons_of_mem _ hd), Nat.add_comm]

theorem parse_ok_iff {p : RefPattern} : RefPattern.parse pattern = .ok p ↔
      WellFormed pattern ∧ p.raw = pattern ∧
        p.segments = (pattern.splitOn '/').map readSegment := by
  have hsegments := @parseSegments_ok_iff (pattern.splitOn '/') 0 p.segments (Nat.zero_le _)
  rw [Nat.zero_add] at hsegments
  constructor
  · intro h
    unfold RefPattern.parse at h
    split_ifs at h with hempty hlong hrefs
    split at h
    · cases h
    · next segments hparsed =>
      cases h
      obtain ⟨hreadable, hwildcards, rfl⟩ := hsegments.mp hparsed
      have hsize : Json.byteSize pattern = pattern.length :=
        byteSize_eq_length (utf8Size_of_segments hreadable.segments)
      refine ⟨⟨by simpa using hrefs, hreadable.segments, hreadable.recursive_last, ?_, hwildcards⟩,
        rfl, rfl⟩
      rw [← hsize]
      exact Nat.le_of_not_lt hlong
  · rintro ⟨hformed, rfl, hread⟩
    have hparsed := hsegments.mpr ⟨⟨hformed.segments, hformed.recursive_last⟩, hformed.wildcards, hread⟩
    have hsize : Json.byteSize p.raw = p.raw.length :=
      byteSize_eq_length (utf8Size_of_segments hformed.segments)
    have hempty : p.raw ≠ [] := by
      intro hnil
      have hrefs := hformed.refs
      rw [hnil] at hrefs
      cases hrefs
    have hlong : ¬ maxPatternLength < (String.ofList p.raw).utf8ByteSize :=
      Nat.not_lt.mpr (hsize ▸ hformed.length : Json.byteSize p.raw ≤ maxPatternLength)
    unfold RefPattern.parse
    rw [if_neg hempty, if_neg hlong, hformed.refs, if_neg (by decide)]
    split
    · next e he =>
      rw [hparsed] at he
      cases he
    · next segments hok =>
      rw [hparsed] at hok
      cases hok
      rfl

/-! ## Matching -/

/-- `none` where the source has `unreachable!()`. -/
def segmentMatches? : PatternSegment × List Char → Option Bool
  | (.wildcard, _) => some true
  | (.literal text, segment) => some (text == segment)
  | (.recursiveWildcard, _) => none

/-- `Iterator::all`, which stops at the first segment that does not match. -/
def allMatch? : List (PatternSegment × List Char) → Option Bool
  | [] => some true
  | x :: xs => (segmentMatches? x).bind fun matched => if matched then allMatch? xs else some false

/-- `matches`, as `none` when it panics. -/
def RefPattern.matches? (pattern : RefPattern) (refName : List Char) : Option Bool :=
  let refSegments := refName.splitOn '/'
  if pattern.segments.getLast? = some .recursiveWildcard then
    let prefixLen := pattern.segments.length - 1
    if refSegments.length ≤ prefixLen then some false
    else allMatch? ((pattern.segments.take prefixLen).zip (refSegments.take prefixLen))
  else if refSegments.length ≠ pattern.segments.length then some false
  else allMatch? (pattern.segments.zip refSegments)

theorem allMatch?_eq {xs : List (PatternSegment × List Char)}
    (h : ∀ x ∈ xs, x.1 ≠ .recursiveWildcard) : allMatch? xs = some (xs.all segmentMatches) := by
  induction xs with
  | nil => rfl
  | cons x xs ih =>
    obtain ⟨hx, hrest⟩ := List.forall_mem_cons.mp h
    have hone : segmentMatches? x = some (segmentMatches x) := by
      obtain ⟨segment, text⟩ := x
      cases segment with
      | literal => rfl
      | wildcard => rfl
      | recursiveWildcard => exact absurd rfl hx
    rw [allMatch?, hone, Option.bind_some, ih hrest, List.all_cons]
    cases segmentMatches x with
    | false => rfl
    | true => rfl

theorem matches?_eq (pattern : RefPattern) (refName : List Char) :
    pattern.matches? refName = some (pattern.matches refName) := by
  unfold RefPattern.matches? RefPattern.matches
  simp only
  split_ifs with hlast hshort hlength
  · rfl
  · refine allMatch?_eq fun x hx => ?_
    have hmem := (List.of_mem_zip hx).1
    rw [← List.dropLast_eq_take] at hmem
    rintro hrecursive
    exact pattern.recursive_last (hrecursive ▸ hmem)
  · rfl
  · refine allMatch?_eq fun x hx hrecursive => ?_
    have hmem := (List.of_mem_zip hx).1
    rw [hrecursive] at hmem
    have hne := List.ne_nil_of_mem hmem
    rw [← List.dropLast_append_getLast hne, List.mem_append, List.mem_singleton] at hmem
    rcases hmem with hmem | hmem
    · exact pattern.recursive_last hmem
    · exact hlast (by rw [List.getLast?_eq_some_getLast hne, ← hmem])

/-! ## One definition of a match -/

theorem segmentMatches_readSegment {segment : List Char} (hpart : part ≠ "**".toList) :
    segmentMatches (readSegment part, segment) = true ↔ part = "*".toList ∨ part = segment := by
  unfold readSegment
  rw [if_neg hpart]
  split_ifs with hstar
  · exact iff_of_true rfl (.inl hstar)
  · rw [or_iff_right hstar]
    exact beq_iff_eq

variable {segments : List (List Char)}

theorem matches_cons {segment : List Char} (hpart : part ≠ "**".toList) :
    Matches (part :: parts) (segment :: segments) ↔
      (part = "*".toList ∨ part = segment) ∧ Matches parts segments := by
  constructor
  · intro h
    cases h with
    | literal _ h => exact ⟨.inr rfl, h⟩
    | wildcard h => exact ⟨.inl rfl, h⟩
    | recursive => exact absurd rfl hpart
  · rintro ⟨hsegment, h⟩
    by_cases hstar : part = "*".toList
    · subst hstar
      exact .wildcard h
    · obtain rfl := hsegment.resolve_left hstar
      refine .literal ?_ h
      rw [isWildcardText, decide_eq_false hstar, decide_eq_false hpart, Bool.or_self]

theorem not_matches_nil : ¬ Matches (part :: parts) [] := nofun

theorem matches_plain_iff (h : "**".toList ∉ parts) :
    Matches parts segments ↔ segments.length = parts.length ∧
      ((parts.map readSegment).zip segments).all segmentMatches = true := by
  induction parts generalizing segments with
  | nil =>
    cases segments with
    | nil => exact iff_of_true .done ⟨rfl, rfl⟩
    | cons segment segments => exact iff_of_false nofun fun h => by cases h.1
  | cons part parts ih =>
    rw [List.mem_cons, not_or] at h
    cases segments with
    | nil => exact iff_of_false not_matches_nil fun h => by cases h.1
    | cons segment segments =>
      rw [matches_cons (Ne.symm h.1), ih h.2, List.map_cons, List.zip_cons_cons, List.all_cons,
        Bool.and_eq_true, segmentMatches_readSegment (Ne.symm h.1), List.length_cons,
        List.length_cons, Nat.add_right_cancel_iff]
      tauto

theorem matches_recursive_iff (h : "**".toList ∉ parts) :
    Matches (parts ++ ["**".toList]) segments ↔ parts.length < segments.length ∧
      ((parts.map readSegment).zip (segments.take parts.length)).all segmentMatches = true := by
  induction parts generalizing segments with
  | nil =>
    cases segments with
    | nil => exact iff_of_false not_matches_nil fun h => absurd h.1 (by simp)
    | cons segment segments => exact iff_of_true .recursive ⟨by simp, rfl⟩
  | cons part parts ih =>
    rw [List.mem_cons, not_or] at h
    rw [List.cons_append]
    cases segments with
    | nil => exact iff_of_false not_matches_nil fun h => absurd h.1 (by simp)
    | cons segment segments =>
      rw [matches_cons (Ne.symm h.1), ih h.2, List.map_cons, List.length_cons,
        List.length_cons, List.take_succ_cons, List.zip_cons_cons, List.all_cons, Bool.and_eq_true,
        segmentMatches_readSegment (Ne.symm h.1), Nat.add_lt_add_iff_right]
      tauto

theorem readSegment_eq_recursive : readSegment part = .recursiveWildcard ↔ part = "**".toList := by
  unfold readSegment
  split_ifs with hrecursive hstar
  · exact iff_of_true rfl hrecursive
  · exact iff_of_false (by simp) hrecursive
  · exact iff_of_false (by simp) hrecursive

theorem matches_iff {p : RefPattern} (hformed : WellFormed pattern)
    (hread : p.segments = (pattern.splitOn '/').map readSegment) (refName : List Char) :
    p.matches refName = true ↔ Matches (pattern.splitOn '/') (refName.splitOn '/') := by
  have hlast := hformed.recursive_last
  unfold RefPattern.matches
  rw [hread, List.getLast?_map, List.length_map]
  generalize pattern.splitOn '/' = parts at hlast
  simp only
  by_cases hrecursive : parts.getLast? = some "**".toList
  · obtain ⟨init, rfl⟩ := List.getLast?_eq_some_iff.mp hrecursive
    rw [List.dropLast_concat] at hlast
    have htake : (init ++ ["**".toList]).length - 1 = init.length := by simp
    rw [hrecursive, if_pos (by decide), htake, matches_recursive_iff hlast, List.map_append,
      List.take_left' (by simp)]
    split_ifs with hshort
    · exact iff_of_false nofun fun h => absurd h.1 (Nat.not_lt.mpr hshort)
    · exact (and_iff_right (Nat.lt_of_not_le hshort)).symm
  · have hnone : parts.getLast?.map readSegment ≠ some .recursiveWildcard := by
      intro h
      obtain ⟨part, hpart, hread⟩ := Option.map_eq_some_iff.mp h
      rw [hpart, readSegment_eq_recursive.mp hread] at hrecursive
      exact hrecursive rfl
    have hplain : "**".toList ∉ parts := by
      intro hmem
      have hne := List.ne_nil_of_mem hmem
      rw [← List.dropLast_append_getLast hne, List.mem_append, List.mem_singleton] at hmem
      rcases hmem with hmem | hmem
      · exact hlast hmem
      · exact hrecursive (by rw [List.getLast?_eq_some_getLast hne, ← hmem])
    rw [if_neg hnone, matches_plain_iff hplain]
    split_ifs with hlength
    · exact iff_of_false nofun fun h => hlength h.1
    · exact (and_iff_right (not_not.mp hlength)).symm

/-- Exactly the well-formed patterns are accepted, and one that is accepted is compared with a ref
segment by segment and never panics. -/
theorem ref_pattern_semantics (pattern refName : List Char) :
    match RefPattern.parse pattern with
    | .error _ => ¬ WellFormed pattern
    | .ok p => WellFormed pattern ∧ p.matches? refName = some (p.matches refName) ∧
        (p.matches refName = true ↔ Matches (pattern.splitOn '/') (refName.splitOn '/')) := by
  cases hparse : RefPattern.parse pattern with
  | error e =>
    intro hformed
    have hlast : .recursiveWildcard ∉ ((pattern.splitOn '/').map readSegment).dropLast := by
      rw [← List.map_dropLast, List.mem_map]
      rintro ⟨part, hmem, hread⟩
      rw [readSegment_eq_recursive.mp hread] at hmem
      exact hformed.recursive_last hmem
    have hok : RefPattern.parse pattern = .ok ⟨pattern, _, hlast⟩ :=
      parse_ok_iff.mpr ⟨hformed, rfl, rfl⟩
    rw [hparse] at hok
    cases hok
  | ok p =>
    obtain ⟨hformed, -, hread⟩ := parse_ok_iff.mp hparse
    exact ⟨hformed, matches?_eq p refName, matches_iff hformed hread refName⟩

def everyBranch : List Char := "refs/heads/**".toList

/-- The grammar in the comments has no `**`. -/
theorem recursive_pattern_accepted :
    ¬ ∀ pattern : List Char, (∃ p, RefPattern.parse pattern = .ok p) ↔ Documented pattern := by
  intro h
  have hparsed : (RefPattern.parse everyBranch).isOk = true := by decide +kernel
  cases hp : RefPattern.parse everyBranch with
  | error e =>
    rw [hp] at hparsed
    cases hparsed
  | ok p =>
    have hdocumented := (h everyBranch).mp ⟨p, hp⟩
    exact absurd (hdocumented.segments "**".toList (by decide +kernel)) (by decide)

end Vingilot.GitPerms
