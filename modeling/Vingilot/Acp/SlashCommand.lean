import Mathlib.Data.List.Sort
import Mathlib.Logic.Relation
import Vingilot.Lib.Slices
import Vingilot.Lib.Chars

/-!
# Slash commands behind mentions (`buzz-acp/src/queue.rs`)

A user has to mention an agent to reach it, so `extract_slash_command` strips the mentions that a
message starts with and looks for a command behind them. It cuts the text at offsets in bytes. Where
a slice would panic, the result is `none`.
-/

namespace Vingilot.Acp.SlashCommand

open Slices Text
open Json (byteSize byteSize_append byteSize_cons byteSize_nil)

/-! ## The code -/

/-- `str::trim_start`. -/
def trimStart (text : List Char) : List Char := text.dropWhile isWhitespace

/-- `str::eq_ignore_ascii_case`. -/
def eqIgnoreAsciiCase (a b : List Char) : Bool := a.map Char.toLower == b.map Char.toLower

def longestFirst (knownNames : List (List Char)) : List (List Char) :=
  (knownNames.filter fun name => !(trim name).isEmpty).mergeSort fun a b => byteSize b ≤ byteSize a

/-- The length of the name, if the text goes on with it behind the `@`. -/
def matchName (afterAt name : List Char) : Option (Option Nat) :=
  match sliceTo afterAt (byteSize name) with
  | none => some none
  | some candidate =>
    if !eqIgnoreAsciiCase candidate name then some none
    else
      (sliceFrom afterAt (byteSize name)).map fun behind =>
        match behind with
        | [] => some (byteSize name)
        | c :: _ => if isWhitespace c then some (byteSize name) else none

def findName (afterAt : List Char) : List (List Char) → Option (Option Nat)
  | [] => some none
  | name :: names =>
    match matchName afterAt name with
    | none => none
    | some (some len) => some (some len)
    | some none => findName afterAt names

def isMentionChar (c : Char) : Bool := c.isAlphanum || c == '.' || c == '-' || c == '_'

def wordLen (afterAt : List Char) : Option Nat :=
  let len := (findOffset (fun c => !isMentionChar c) afterAt).getD (byteSize afterAt)
  if 0 < len then some len else none

inductive Round where
  | mention (rest : List Char)
  /-- A bare `@`, for which the call returns `None`. -/
  | bare
  | done

def isReference (text : List Char) : Bool :=
  "nostr:npub1".toList.isPrefixOf text || "nostr:nprofile1".toList.isPrefixOf text

def round (names : List (List Char)) (rest : List Char) : Option Round :=
  if isReference rest then
    (sliceFrom rest ((findOffset isWhitespace rest).getD (byteSize rest))).map fun behind =>
      .mention (trimStart behind)
  else
    match rest with
    | '@' :: afterAt =>
      match findName afterAt names with
      | none => none
      | some nameLen =>
        match nameLen.or (wordLen afterAt) with
        | some len => (sliceFrom afterAt len).map fun behind => .mention (trimStart behind)
        | none => some .bare
    | _ => some .done

def strip (names : List (List Char)) : Nat → List Char → Option (Option (List Char))
  | 0, _ => none
  | fuel + 1, rest =>
    match round names rest with
    | none => none
    | some (.mention rest) => strip names fuel rest
    | some .bare => some none
    | some .done => some (some rest)

def isCommand : List Char → Bool
  | '/' :: c :: _ => c.isAlphanum
  | _ => false

def extractSlashCommand (fuel : Nat) (content : String) (knownNames : List String) :
    Option (Option String) :=
  (strip (longestFirst (knownNames.map String.toList)) fuel (trimStart content.toList)).map
    fun rest => (rest.filter isCommand).map String.ofList

/-! ## What a mention is -/

def Ends (rest : List Char) : Prop := ∀ c ∈ rest.head?, isWhitespace c = true

/-- Behind an `@`, a name that is known and ends there. -/
def IsName (knownNames : List (List Char)) (called rest : List Char) : Prop :=
  ∃ name ∈ knownNames, trim name ≠ [] ∧ eqIgnoreAsciiCase called name = true ∧ Ends rest

/-- A text starts with the token of a mention, and `rest` is behind it. -/
inductive Mention (knownNames : List (List Char)) : List Char → List Char → Prop
  | reference (token rest : List Char)
      (hstart : "nostr:npub1".toList <+: token ∨ "nostr:nprofile1".toList <+: token)
      (hword : ∀ c ∈ token, isWhitespace c = false) (hends : Ends rest) :
      Mention knownNames token rest
  | name (called rest : List Char) (hname : IsName knownNames called rest)
      (hlongest : ∀ called' rest', called' ++ rest' = called ++ rest →
        IsName knownNames called' rest' → called'.length ≤ called.length) :
      Mention knownNames ('@' :: called) rest
  /-- Where no name is, the longest word. -/
  | word (called rest : List Char)
      (hnone : ∀ called' rest', called' ++ rest' = called ++ rest →
        ¬ IsName knownNames called' rest')
      (hne : called ≠ []) (hword : ∀ c ∈ called, isMentionChar c = true)
      (hends : ∀ c ∈ rest.head?, isMentionChar c = false) :
      Mention knownNames ('@' :: called) rest

inductive Leads (knownNames : List (List Char)) : List Char → List Char → Prop
  | space (c : Char) (rest : List Char) (hspace : isWhitespace c = true) :
      Leads knownNames (c :: rest) rest
  | mention (token rest : List Char) (hmention : Mention knownNames token rest) :
      Leads knownNames (token ++ rest) rest

def Stripped (knownNames : List (List Char)) (text rest : List Char) : Prop :=
  Relation.ReflTransGen (Leads knownNames) text rest ∧ ∀ rest', ¬ Leads knownNames rest rest'

/-! ## Texts in two parts -/

variable {called rest : List Char}

section Parts

variable {p : Char → Bool}

theorem parts_eq (hword : ∀ c ∈ called, p c = true) (hends : ∀ c ∈ rest.head?, p c = false) :
    (called ++ rest).takeWhile p = called ∧ (called ++ rest).dropWhile p = rest := by
  rw [List.takeWhile_append_of_pos hword, List.dropWhile_append_of_pos hword]
  rcases rest with _ | ⟨c, rest⟩
  · simp
  · have hc : p c = false := hends c rfl
    simp [hc]

theorem head_dropWhile (p : Char → Bool) (text : List Char) :
    ∀ c ∈ (text.dropWhile p).head?, p c = false := by
  have hnot := List.head?_dropWhile_not p text
  intro c hc
  rw [Option.mem_def] at hc
  rw [hc] at hnot
  exact hnot

theorem takeWhile_mem (p : Char → Bool) (text : List Char) : ∀ c ∈ text.takeWhile p, p c = true :=
  fun _ hc => List.mem_takeWhile_imp hc

end Parts

theorem ends_iff : Ends rest ↔ ∀ c ∈ rest.head?, (!isWhitespace c) = false := by
  unfold Ends
  simp

theorem leads_trimStart (knownNames : List (List Char)) (text : List Char) :
    Relation.ReflTransGen (Leads knownNames) text (trimStart text) := by
  induction text with
  | nil => exact .refl
  | cons c text ih =>
    unfold trimStart
    rw [List.dropWhile_cons]
    split_ifs with hspace
    · exact .head (.space c text hspace) ih
    · exact .refl

/-! ## Names -/

theorem utf8Size_toLower (c : Char) : c.toLower.utf8Size = c.utf8Size := by
  unfold Char.toLower
  split_ifs with h
  · simp only [UInt32.le_iff_toNat_le, ge_iff_le] at h
    have hone : c.utf8Size = 1 := by
      rw [Char.utf8Size_eq_one_iff, UInt32.le_iff_toNat_le]
      exact h.2.trans (by decide)
    have hupper : 'Z'.val.toNat = 90 := by decide
    have hshift : ('a'.val - 'A'.val).toNat = 32 := by decide
    have hlast : (127 : UInt32).toNat = 127 := by decide
    rw [hone, Char.utf8Size_eq_one_iff, UInt32.le_iff_toNat_le, UInt32.toNat_add, hshift, hlast]
    omega
  · rfl

theorem byteSize_map_toLower (text : List Char) : byteSize (text.map Char.toLower) = byteSize text := by
  induction text with
  | nil => rfl
  | cons c text ih => rw [List.map_cons, byteSize_cons, byteSize_cons, utf8Size_toLower, ih]

theorem byteSize_eq_of_ignoreCase {name : List Char} (h : eqIgnoreAsciiCase called name = true) :
    byteSize called = byteSize name := by
  rw [← byteSize_map_toLower, beq_iff_eq.mp h, byteSize_map_toLower]

theorem mem_longestFirst {knownNames : List (List Char)} {name : List Char} :
    name ∈ longestFirst knownNames ↔ name ∈ knownNames ∧ trim name ≠ [] := by
  unfold longestFirst
  rw [List.mem_mergeSort]
  simp

theorem longestFirst_sorted (knownNames : List (List Char)) :
    (longestFirst knownNames).Pairwise fun a b => byteSize b ≤ byteSize a := by
  have hsorted := @List.pairwise_mergeSort _ (fun a b : List Char => decide (byteSize b ≤ byteSize a))
    (fun a b c hab hbc => by simp only [decide_eq_true_eq] at *; omega)
    (fun a b => by simp only [Bool.or_eq_true, decide_eq_true_eq]; omega)
    (knownNames.filter fun name => !(trim name).isEmpty)
  exact hsorted.imp fun h => of_decide_eq_true h

/-- The text behind the `@` starts with the name. -/
def StartsWith (afterAt name : List Char) : Prop :=
  ∃ called rest, afterAt = called ++ rest ∧ eqIgnoreAsciiCase called name = true ∧ Ends rest

theorem matchName_cases (afterAt name : List Char) :
    (matchName afterAt name = some (some (byteSize name)) ∧ StartsWith afterAt name) ∨
      (matchName afterAt name = some none ∧ ¬ StartsWith afterAt name) := by
  unfold matchName
  cases hslice : sliceTo afterAt (byteSize name) with
  | none =>
    refine .inr ⟨rfl, ?_⟩
    rintro ⟨called, rest, rfl, heq, -⟩
    rw [← byteSize_eq_of_ignoreCase heq, sliceTo_append] at hslice
    cases hslice
  | some candidate =>
    obtain ⟨⟨rest, rfl⟩, hsize⟩ := sliceTo_eq_some hslice
    -- The name can only stand where the candidate does.
    have hparts : ∀ called rest', candidate ++ rest = called ++ rest' →
        eqIgnoreAsciiCase called name = true → called = candidate ∧ rest' = rest := by
      intro called rest' happend heq
      have hlen := byteSize_eq_of_ignoreCase heq
      rw [happend, ← hlen, sliceTo_append] at hslice
      cases hslice
      exact ⟨rfl, (List.append_cancel_left happend).symm⟩
    rw [← hsize]
    simp only [sliceFrom_append, Option.map_some, Bool.not_eq_true']
    split_ifs with hdiffers
    · refine .inr ⟨rfl, ?_⟩
      rintro ⟨called, rest', happend, heq, -⟩
      obtain ⟨rfl, -⟩ := hparts called rest' happend heq
      rw [heq] at hdiffers
      cases hdiffers
    · rw [Bool.not_eq_false] at hdiffers
      rcases rest with _ | ⟨c, rest⟩
      · exact .inl ⟨rfl, candidate, [], rfl, hdiffers, by simp [Ends]⟩
      · by_cases hspace : isWhitespace c = true
        · refine .inl ⟨by simp [hspace], candidate, c :: rest, rfl, hdiffers, ?_⟩
          simpa [Ends] using hspace
        · refine .inr ⟨by simp [hspace], ?_⟩
          rintro ⟨called, rest', happend, heq, hends⟩
          obtain ⟨rfl, rfl⟩ := hparts called rest' happend heq
          exact hspace (hends c rfl)

theorem findName_cases (afterAt : List Char) (names : List (List Char)) :
    (∃ before name behind, names = before ++ name :: behind ∧ StartsWith afterAt name ∧
      (∀ other ∈ before, ¬ StartsWith afterAt other) ∧
      findName afterAt names = some (some (byteSize name))) ∨
    ((∀ name ∈ names, ¬ StartsWith afterAt name) ∧ findName afterAt names = some none) := by
  induction names with
  | nil => exact .inr ⟨by simp, rfl⟩
  | cons name names ih =>
    unfold findName
    rcases matchName_cases afterAt name with ⟨hmatch, hstarts⟩ | ⟨hmatch, hnot⟩
    · exact .inl ⟨[], name, names, rfl, hstarts, by simp, by rw [hmatch]⟩
    · simp only [hmatch]
      rcases ih with ⟨before, found, behind, rfl, hstarts, hbefore, hfind⟩ | ⟨hnone, hfind⟩
      · refine .inl ⟨name :: before, found, behind, rfl, hstarts, ?_, hfind⟩
        intro other hother
        rcases List.mem_cons.mp hother with rfl | hother
        · exact hnot
        · exact hbefore other hother
      · refine .inr ⟨?_, hfind⟩
        intro other hother
        rcases List.mem_cons.mp hother with rfl | hother
        · exact hnot
        · exact hnone other hother

variable {text token : List Char}

section Known

variable {knownNames : List (List Char)}

theorem isName_iff : IsName knownNames called rest ↔
      ∃ name ∈ longestFirst knownNames, eqIgnoreAsciiCase called name = true ∧ Ends rest := by
  simp only [IsName, mem_longestFirst, and_assoc]

theorem findName_longest (knownNames : List (List Char)) (afterAt : List Char) :
    (∃ called rest, afterAt = called ++ rest ∧ called ≠ [] ∧ Mention knownNames ('@' :: called) rest ∧
      findName afterAt (longestFirst knownNames) = some (some (byteSize called))) ∨
    ((∀ called rest, afterAt = called ++ rest → ¬ IsName knownNames called rest) ∧
      findName afterAt (longestFirst knownNames) = some none) := by
  rcases findName_cases afterAt (longestFirst knownNames) with
    ⟨before, name, behind, hnames, ⟨called, rest, rfl, heq, hends⟩, hbefore, hfind⟩ | ⟨hnone, hfind⟩
  · have hmem : name ∈ longestFirst knownNames := by rw [hnames]; simp
    have hsorted := longestFirst_sorted knownNames
    rw [hnames, List.pairwise_append] at hsorted
    refine .inl ⟨called, rest, rfl, ?_, .name called rest (isName_iff.mpr ⟨name, hmem, heq, hends⟩) ?_, ?_⟩
    · rintro rfl
      have hempty := byteSize_eq_zero (byteSize_eq_of_ignoreCase heq).symm
      rw [hempty] at hmem
      exact (mem_longestFirst.mp hmem).2 rfl
    · intro called' rest' happend hname
      obtain ⟨name', hmem', heq', hends'⟩ := isName_iff.mp hname
      have hle : byteSize name' ≤ byteSize name := by
        rw [hnames] at hmem'
        rcases List.mem_append.mp hmem' with hbefore' | hbehind
        · exact absurd ⟨called', rest', happend.symm, heq', hends'⟩ (hbefore name' hbefore')
        · rcases List.mem_cons.mp hbehind with rfl | hbehind
          · exact le_refl _
          · exact (List.pairwise_cons.mp hsorted.2.1).1 name' hbehind
      rw [← byteSize_eq_of_ignoreCase heq, ← byteSize_eq_of_ignoreCase heq'] at hle
      have hprefix : called' <+: called ++ rest := ⟨rest', happend⟩
      exact (prefix_of_byteSize_le (List.prefix_append called rest) hprefix hle).length_le
    · rw [hfind, byteSize_eq_of_ignoreCase heq]
  · refine .inr ⟨?_, hfind⟩
    intro called rest happend hname
    obtain ⟨name, hmem, heq, hends⟩ := isName_iff.mp hname
    exact hnone name hmem ⟨called, rest, happend, heq, hends⟩

/-! ## A round of the loop -/

theorem wordLen_eq (afterAt : List Char) :
    wordLen afterAt =
      if afterAt.takeWhile isMentionChar = [] then none
      else some (byteSize (afterAt.takeWhile isMentionChar)) := by
  have hlen : (findOffset (fun c => !isMentionChar c) afterAt).getD (byteSize afterAt) =
      byteSize (afterAt.takeWhile isMentionChar) := by
    rw [findOffset_getD]
    simp
  unfold wordLen
  simp only [hlen]
  by_cases hnil : afterAt.takeWhile isMentionChar = []
  · simp [hnil, byteSize_nil]
  · have hpos : 0 < byteSize (afterAt.takeWhile isMentionChar) :=
      Nat.pos_of_ne_zero fun h => hnil (byteSize_eq_zero h)
    rw [if_pos hpos, if_neg hnil]

theorem isReference_iff : isReference text = true ↔
      "nostr:npub1".toList <+: text ∨ "nostr:nprofile1".toList <+: text := by
  simp [isReference, List.isPrefixOf_iff_prefix]

theorem reference_mem_space {start : List Char}
    (h : start = "nostr:npub1".toList ∨ start = "nostr:nprofile1".toList) :
    ∀ c ∈ start, (!isWhitespace c) = true := by
  apply List.all_eq_true.mp
  rcases h with rfl | rfl <;> decide

theorem mention_reference (h : isReference text = true) :
    Mention knownNames (text.takeWhile fun c => !isWhitespace c)
      (text.dropWhile fun c => !isWhitespace c) := by
  apply Mention.reference
  · rcases isReference_iff.mp h with ⟨rest, rfl⟩ | ⟨rest, rfl⟩
    · rw [List.takeWhile_append_of_pos (reference_mem_space (.inl rfl))]
      exact .inl (List.prefix_append _ _)
    · rw [List.takeWhile_append_of_pos (reference_mem_space (.inr rfl))]
      exact .inr (List.prefix_append _ _)
  · intro c hc
    simpa using takeWhile_mem _ text c hc
  · exact ends_iff.mpr (head_dropWhile _ text)

theorem head_of_mention (h : Mention knownNames token rest) :
    isReference (token ++ rest) = true ∨ ∃ called, token = '@' :: called := by
  cases h with
  | reference _ _ hstart =>
    refine .inl (isReference_iff.mpr ?_)
    exact hstart.imp (·.trans (List.prefix_append _ _)) (·.trans (List.prefix_append _ _))
  | name called => exact .inr ⟨called, rfl⟩
  | word called => exact .inr ⟨called, rfl⟩

theorem at_not_reference (afterAt : List Char) : isReference ('@' :: afterAt) = false := by
  simp [isReference, List.isPrefixOf]

theorem round_at (knownNames : List (List Char)) (afterAt : List Char) :
    (∃ called rest, afterAt = called ++ rest ∧ Mention knownNames ('@' :: called) rest ∧
      round (longestFirst knownNames) ('@' :: afterAt) = some (.mention (trimStart rest))) ∨
    ((∀ called rest, afterAt = called ++ rest → ¬ Mention knownNames ('@' :: called) rest) ∧
      round (longestFirst knownNames) ('@' :: afterAt) = some .bare) := by
  unfold round
  simp only [at_not_reference, Bool.false_eq_true, if_false]
  rcases findName_longest knownNames afterAt with
    ⟨called, rest, rfl, -, hmention, hfind⟩ | ⟨hnone, hfind⟩
  · refine .inl ⟨called, rest, rfl, hmention, ?_⟩
    simp only [hfind, Option.some_or, sliceFrom_append, Option.map_some]
  · simp only [hfind, Option.none_or, wordLen_eq]
    have hsplit := List.takeWhile_append_dropWhile (p := isMentionChar) (l := afterAt)
    by_cases hnil : afterAt.takeWhile isMentionChar = []
    · refine .inr ⟨?_, by rw [if_pos hnil]⟩
      intro called rest happend hmention
      cases hmention with
      | reference _ _ hstart => simp at hstart
      | name _ _ hname => exact hnone called rest happend hname
      | word _ _ _ hne hword hends =>
        rw [happend, (parts_eq hword hends).1] at hnil
        exact hne hnil
    · refine .inl ⟨afterAt.takeWhile isMentionChar, afterAt.dropWhile isMentionChar, hsplit.symm,
        .word _ _ ?_ hnil (takeWhile_mem _ afterAt) (head_dropWhile _ afterAt), ?_⟩
      · rw [hsplit]
        exact fun called' rest' happend => hnone called' rest' happend.symm
      · have hslice := sliceFrom_append (afterAt.takeWhile isMentionChar)
          (afterAt.dropWhile isMentionChar)
        rw [hsplit] at hslice
        simp only [if_neg hnil, hslice, Option.map_some]

theorem round_cases (knownNames : List (List Char)) (text : List Char) :
    (∃ token rest, text = token ++ rest ∧ Mention knownNames token rest ∧
      round (longestFirst knownNames) text = some (.mention (trimStart rest))) ∨
    ((∀ token rest, text = token ++ rest → ¬ Mention knownNames token rest) ∧
      (round (longestFirst knownNames) text = some .bare ∧ isCommand text = false ∨
        round (longestFirst knownNames) text = some .done)) := by
  by_cases href : isReference text = true
  · refine .inl ⟨_, _, List.takeWhile_append_dropWhile.symm, mention_reference href, ?_⟩
    unfold round
    simp only [href, if_true, sliceFrom_findOffset, Option.map_some]
  · rcases text with _ | ⟨c, text⟩
    · refine .inr ⟨?_, .inr rfl⟩
      intro token rest happend hmention
      rcases head_of_mention hmention with h | ⟨called, rfl⟩
      · exact href (happend ▸ h)
      · cases happend
    · by_cases hat : c = '@'
      · subst hat
        rcases round_at knownNames text with
          ⟨called, rest, rfl, hmention, hround⟩ | ⟨hnone, hround⟩
        · exact .inl ⟨_, rest, rfl, hmention, hround⟩
        · refine .inr ⟨?_, .inl ⟨hround, rfl⟩⟩
          intro token rest happend hmention
          rcases head_of_mention hmention with h | ⟨called, rfl⟩
          · exact href (happend ▸ h)
          · exact hnone called rest (List.cons.inj happend).2 hmention
      · refine .inr ⟨?_, .inr ?_⟩
        · intro token rest happend hmention
          rcases head_of_mention hmention with h | ⟨called, rfl⟩
          · exact href (happend ▸ h)
          · exact hat (List.cons.inj happend).1
        · unfold round
          simp [href, hat]

end Known

/-! ## The loop -/

section Loop

variable {knownNames : List (List Char)}

theorem trimStart_append (text : List Char) :
    ∀ c ∈ (trimStart text).head?, isWhitespace c = false :=
  head_dropWhile _ text

theorem length_trimStart_le (text : List Char) : (trimStart text).length ≤ text.length :=
  (List.dropWhile_suffix _).length_le

theorem mention_length_pos (h : Mention knownNames token rest) : 0 < token.length := by
  cases h with
  | reference _ _ hstart =>
    rcases hstart with hstart | hstart <;> exact Nat.lt_of_lt_of_le (by decide) hstart.length_le
  | name called => exact Nat.succ_pos _
  | word called => exact Nat.succ_pos _

theorem strip_stripped (knownNames : List (List Char)) (fuel : Nat) (text : List Char)
    (hfuel : text.length < fuel)
    (htrimmed : ∀ c ∈ text.head?, isWhitespace c = false) :
    ∃ rest, Stripped knownNames text rest ∧
      (strip (longestFirst knownNames) fuel text = some (some rest) ∨
        strip (longestFirst knownNames) fuel text = some none ∧ isCommand rest = false) := by
  induction fuel generalizing text with
  | zero => exact absurd hfuel (Nat.not_lt_zero _)
  | succ fuel ih =>
    rw [strip]
    rcases round_cases knownNames text with
      ⟨token, rest, rfl, hmention, hround⟩ | ⟨hnone, hround⟩
    · simp only [hround]
      have hpos := mention_length_pos hmention
      have hle := length_trimStart_le rest
      rw [List.length_append] at hfuel
      obtain ⟨final, ⟨hreach, hend⟩, hstrip⟩ := ih (trimStart rest) (by omega) (trimStart_append rest)
      refine ⟨final, ⟨?_, hend⟩, hstrip⟩
      exact .head (.mention token rest hmention) ((leads_trimStart knownNames rest).trans hreach)
    · have hend : ∀ rest, ¬ Leads knownNames text rest := by
        intro rest hleads
        cases hleads with
        | space c rest hspace =>
          have hnot := htrimmed c rfl
          rw [hspace] at hnot
          cases hnot
        | mention token rest hmention => exact hnone token rest rfl hmention
      refine ⟨text, ⟨.refl, hend⟩, ?_⟩
      rcases hround with ⟨hround, hcommand⟩ | hround
      · simp only [hround]
        exact .inr ⟨trivial, hcommand⟩
      · simp only [hround]
        exact .inl trivial

theorem mention_unique {token' rest' : List Char} (h : Mention knownNames token rest)
    (h' : Mention knownNames token' rest') (happend : token ++ rest = token' ++ rest') :
    rest = rest' := by
  have hreference : ∀ called : List Char,
      ¬ ("nostr:npub1".toList <+: '@' :: called ∨ "nostr:nprofile1".toList <+: '@' :: called) := by
    intro called hstart
    have href := isReference_iff.mpr hstart
    rw [at_not_reference] at href
    cases href
  have hbehind : ∀ {start called behind rest : List Char},
      ("nostr:npub1".toList <+: start ∨ "nostr:nprofile1".toList <+: start) →
      start ++ behind ≠ '@' :: called ++ rest := by
    intro start called behind rest hstart heq
    refine hreference (called ++ rest) ?_
    have hlong := hstart.imp (·.trans (List.prefix_append _ behind))
      (·.trans (List.prefix_append _ behind))
    rwa [heq, List.cons_append] at hlong
  have hparts : ∀ {p : Char → Bool} {a b a' b' : List Char}, a ++ b = a' ++ b' →
      (∀ c ∈ a, p c = true) → (∀ c ∈ b.head?, p c = false) →
      (∀ c ∈ a', p c = true) → (∀ c ∈ b'.head?, p c = false) → b = b' := by
    intro p a b a' b' hab ha hb ha' hb'
    rw [← (parts_eq ha hb).2, hab, (parts_eq ha' hb').2]
  cases h with
  | reference _ _ hstart hword hends =>
    cases h' with
    | reference _ _ hstart' hword' hends' =>
      refine hparts (p := fun c => !isWhitespace c) happend ?_ (ends_iff.mp hends) ?_
        (ends_iff.mp hends')
      · simpa using hword
      · simpa using hword'
    | name => exact absurd happend (hbehind hstart)
    | word => exact absurd happend (hbehind hstart)
  | name called _ hname hlongest =>
    cases h' with
    | reference _ _ hstart' => exact absurd happend.symm (hbehind hstart')
    | name called' _ hname' hlongest' =>
      have htail := (List.cons.inj happend).2
      have hle := hlongest called' rest' htail.symm hname'
      have hge := hlongest' called rest htail hname
      exact (List.append_inj htail (by omega)).2
    | word called' _ hnone' => exact absurd hname (hnone' called rest (List.cons.inj happend).2)
  | word called _ hnone hne hword hends =>
    cases h' with
    | reference _ _ hstart' => exact absurd happend.symm (hbehind hstart')
    | name called' _ hname' =>
      exact absurd hname' (hnone called' rest' (List.cons.inj happend).2.symm)
    | word called' _ hnone' hne' hword' hends' =>
      exact hparts (List.cons.inj happend).2 hword hends hword' hends'

theorem mention_head (h : Mention knownNames token rest) :
    ∀ c ∈ (token ++ rest).head?, isWhitespace c = false := by
  cases h with
  | reference _ _ hstart hword =>
    rcases token with _ | ⟨d, token⟩
    · simp at hstart
    · simpa using hword d List.mem_cons_self
  | name called => simp; decide
  | word called => simp; decide

theorem leads_unique : Relator.RightUnique (Leads knownNames) := by
  intro text a b h h'
  have hcases : ∀ r, Leads knownNames text r → (∃ c, text = c :: r ∧ isWhitespace c = true) ∨
      ∃ token, text = token ++ r ∧ Mention knownNames token r := by
    intro r hr
    cases hr with
    | space c _ hspace => exact .inl ⟨c, rfl, hspace⟩
    | mention token _ hmention => exact .inr ⟨token, rfl, hmention⟩
  have hmixed : ∀ c token r, isWhitespace c = true → text = c :: r → ∀ r',
      text = token ++ r' → ¬ Mention knownNames token r' := by
    intro c token r hspace htext r' happend hmention
    have hnot := mention_head hmention c (by rw [← happend, htext]; rfl)
    rw [hspace] at hnot
    cases hnot
  rcases hcases a h with ⟨c, htext, hspace⟩ | ⟨token, htext, hmention⟩
  · rcases hcases b h' with ⟨c', htext', hspace'⟩ | ⟨token', htext', hmention'⟩
    · exact (List.cons.inj (htext.symm.trans htext')).2
    · exact absurd hmention' (hmixed c token' a hspace htext b htext')
  · rcases hcases b h' with ⟨c', htext', hspace'⟩ | ⟨token', htext', hmention'⟩
    · exact absurd hmention (hmixed c' token b hspace' htext' a htext)
    · exact mention_unique hmention hmention' (htext.symm.trans htext')

theorem stripped_unique {rest' : List Char} (h : Stripped knownNames text rest)
    (h' : Stripped knownNames text rest') : rest' = rest := by
  have hstays : ∀ {a b}, (∀ c, ¬ Leads knownNames a c) → Relation.ReflTransGen (Leads knownNames) a b →
      a = b := by
    intro a b hend hreach
    rcases hreach.cases_head with heq | ⟨c, hc, -⟩
    · exact heq
    · exact absurd hc (hend c)
  rcases Relation.ReflTransGen.total_of_right_unique leads_unique h.1 h'.1 with hreach | hreach
  · exact (hstays h.2 hreach).symm
  · exact hstays h'.2 hreach

end Loop

theorem isCommand_iff :
    isCommand rest = true ↔ ∃ c tail, rest = '/' :: c :: tail ∧ c.isAlphanum = true := by
  unfold isCommand
  split
  · simp
  · next hnot =>
    simp only [Bool.false_eq_true, false_iff, not_exists, not_and]
    intro c tail heq
    exact absurd heq (hnot c tail)

/-- For every text the loop ends and no slice panics. The result is the rest behind the mentions, if
it is a command. -/
theorem extract_slash_command_exact (content : String) (knownNames : List String) :
    ∃ rest result, Stripped (knownNames.map String.toList) content.toList rest ∧
      (∀ rest', Stripped (knownNames.map String.toList) content.toList rest' → rest' = rest) ∧
      (∀ fuel, content.toList.length < fuel →
        extractSlashCommand fuel content knownNames = some result) ∧
      ∀ command, result = some command ↔ command.toList = rest ∧
        ∃ c tail, rest = '/' :: c :: tail ∧ c.isAlphanum = true := by
  obtain ⟨rest, ⟨hreach, hend⟩, -⟩ := strip_stripped (knownNames.map String.toList)
    ((trimStart content.toList).length + 1) (trimStart content.toList) (Nat.lt_succ_self _)
    (trimStart_append _)
  have hstripped : Stripped (knownNames.map String.toList) content.toList rest :=
    ⟨(leads_trimStart _ content.toList).trans hreach, hend⟩
  refine ⟨rest, if isCommand rest then some (String.ofList rest) else none, hstripped,
    fun rest' h => stripped_unique hstripped h, ?_, ?_⟩
  · intro fuel hfuel
    have hle := length_trimStart_le content.toList
    obtain ⟨rest', ⟨hreach', hend'⟩, hstrip⟩ :=
      strip_stripped (knownNames.map String.toList) fuel (trimStart content.toList)
        (by omega) (trimStart_append _)
    obtain rfl : rest' = rest :=
      stripped_unique hstripped ⟨(leads_trimStart _ content.toList).trans hreach', hend'⟩
    unfold extractSlashCommand
    rcases hstrip with hstrip | ⟨hstrip, hcommand⟩
    · rw [hstrip]
      by_cases hcommand : isCommand rest' = true
      · simp [hcommand]
      · simp [hcommand]
    · rw [hstrip, hcommand]
      rfl
  · intro command
    rw [← isCommand_iff]
    by_cases hcommand : isCommand rest = true
    · simp only [hcommand, if_true, Option.some.injEq, and_true]
      constructor
      · rintro rfl
        exact String.toList_ofList
      · rintro rfl
        exact String.ofList_toList
    · simp [hcommand]

example : strip ["Dawn Smith".toList, "Dawn".toList] 40 "@Dawn Smith @Max /review".toList =
    some (some "/review".toList) := by decide +kernel

end Vingilot.Acp.SlashCommand
