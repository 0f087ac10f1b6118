import Mathlib.Algebra.Order.Ring.Int
import Vingilot.Lib.Search
import Vingilot.Lib.Chars

/-!
# The `str_replace` tool (`buzz-dev-mcp/src/str_replace.rs`)

Strings are their UTF-8 bytes. What the file system reports, at reading and at
writing, is part of the target. The diff and the hint of the messages are left out.
-/

namespace Vingilot.DevMcp

open Search

abbrev Bytes := List UInt8

def maxInputBytes : Nat := 1024 * 1024

def maxFileBytes : Nat := 10 * 1024 * 1024

/-! ## Reading and writing -/

inductive ReadError where
  /-- Resolving the path, `metadata`, `is_file`, opening or reading failed. -/
  | system (text : String)
  | tooLarge (size : Nat)
  | notUtf8
deriving DecidableEq

structure Target where
  content : Bytes
  readFault : Option String
  writeFault : Option String
deriving DecidableEq

def isUtf8 (bytes : Bytes) : Bool := (String.fromUTF8? ⟨bytes.toArray⟩).isSome

def readTextFile (target : Target) : Except ReadError Bytes :=
  match target.readFault with
  | some text => .error (.system text)
  | none =>
    if maxFileBytes < target.content.length then .error (.tooLarge target.content.length)
    else if isUtf8 target.content then .ok target.content
    else .error .notUtf8

/-- A temporary file beside the target is written and then renamed over it. When a step
fails the target has not been touched. -/
def atomicWrite (target : Target) (content : Bytes) : Except String Target :=
  match target.writeFault with
  | some text => .error text
  | none => .ok { target with content := content }

/-! ## The tool -/

structure StrReplaceParams where
  oldStr : Bytes
  newStr : Bytes
  replaceAll : Bool

inductive ToolError where
  | emptyOldStr
  | inputTooLong
  | read (e : ReadError)
  | notFound
  | multipleLocations
  | resultTooLarge (projected : Int)
  | write (text : String)
deriving DecidableEq

def countOccurrencesCapped (text pattern : Bytes) : Nat :=
  if pattern = [] then 0
  else
    match find pattern text with
    | none => 0
    | some pos =>
      match find pattern (text.drop (pos + pattern.length)) with
      | none => 1
      | some _ => 2

def i64Min : Int := -2 ^ 63
def i64Max : Int := 2 ^ 63 - 1

def saturate (n : Int) : Int := max i64Min (min i64Max n)

/-- The size of the result, in saturating `i64` arithmetic. -/
def projectedSize (content oldStr newStr : Bytes) (count : Nat) : Int :=
  let sizeDelta : Int := newStr.length - oldStr.length
  saturate (content.length + saturate (sizeDelta * count))

/-- `str::replacen` with a count of one. -/
def replaceOnce (content oldStr newStr : Bytes) : Bytes :=
  match find oldStr content with
  | none => content
  | some pos => splice content oldStr newStr pos

def countMatches (content : Bytes) (p : StrReplaceParams) : Nat :=
  if p.replaceAll then count p.oldStr 0 content else countOccurrencesCapped content p.oldStr

def newContent (content : Bytes) (p : StrReplaceParams) : Bytes :=
  if p.replaceAll then replace p.oldStr p.newStr 0 content
  else replaceOnce content p.oldStr p.newStr

def strReplace (target : Target) (p : StrReplaceParams) : Except ToolError Nat × Target :=
  if p.oldStr = [] then (.error .emptyOldStr, target)
  else if maxInputBytes < p.oldStr.length ∨ maxInputBytes < p.newStr.length then
    (.error .inputTooLong, target)
  else
    match readTextFile target with
    | .error e => (.error (.read e), target)
    | .ok content =>
      let n := countMatches content p
      if n = 0 then (.error .notFound, target)
      else if p.replaceAll = false ∧ 1 < n then (.error .multipleLocations, target)
      else
        let projected := projectedSize content p.oldStr p.newStr n
        if projected < 0 ∨ maxFileBytes < projected then
          (.error (.resultTooLarge projected), target)
        else
          match atomicWrite target (newContent content p) with
          | .error text => (.error (.write text), target)
          | .ok written => (.ok n, written)

/-! ## The counts -/

theorem countOccurrencesCapped_eq_one {text pattern : Bytes} (hne : pattern ≠ []) {pos : Nat}
    (hpos : find pattern text = some pos) :
    countOccurrencesCapped text pattern = 1 ↔
      ∀ j, OccursAt text pattern j → j < pos + pattern.length := by
  have hbehind : find pattern (text.drop (pos + pattern.length)) = none ↔
      ∀ j, OccursAt text pattern j → j < pos + pattern.length := by
    rw [find_eq_none_iff hne]
    constructor
    · intro h j hj
      by_contra hge
      obtain ⟨k, rfl⟩ := Nat.exists_eq_add_of_le (not_lt.mp hge)
      exact h k ((occursAt_drop _ k).mpr hj)
    · intro h k hk
      have hlt := h _ ((occursAt_drop _ k).mp hk)
      omega
  rw [countOccurrencesCapped, if_neg hne, hpos, ← hbehind]
  simp only
  split
  · rename_i hnone
    simp [hnone]
  · rename_i j hsome
    simp [hsome]

theorem saturate_eq {n : Int} (hlow : i64Min ≤ n) (hhigh : n ≤ i64Max) : saturate n = n := by
  unfold saturate
  omega

variable {content : Bytes}

theorem projectedSize_eq {oldStr newStr : Bytes} {n : Nat}
    (hcontent : content.length ≤ maxFileBytes) (hold : oldStr.length ≤ maxInputBytes)
    (hnew : newStr.length ≤ maxInputBytes) (hn : n ≤ content.length) :
    projectedSize content oldStr newStr n =
      content.length + ((newStr.length : Int) - oldStr.length) * n := by
  have hcount : (n : Int) ≤ maxFileBytes := by omega
  have hhigh : ((newStr.length : Int) - oldStr.length) * n ≤ maxInputBytes * maxFileBytes :=
    calc ((newStr.length : Int) - oldStr.length) * n ≤ maxInputBytes * n :=
          Int.mul_le_mul_of_nonneg_right (by omega) (by omega)
      _ ≤ maxInputBytes * maxFileBytes := Int.mul_le_mul_of_nonneg_left hcount (by omega)
  have hlow : -(maxInputBytes * maxFileBytes : Int) ≤
      ((newStr.length : Int) - oldStr.length) * n :=
    calc -(maxInputBytes * maxFileBytes : Int) ≤ -(maxInputBytes : Int) * n := by
          rw [Int.neg_mul]
          exact Int.neg_le_neg (Int.mul_le_mul_of_nonneg_left hcount (by omega))
      _ ≤ ((newStr.length : Int) - oldStr.length) * n :=
          Int.mul_le_mul_of_nonneg_right (by omega) (by omega)
  unfold projectedSize
  simp only
  generalize ((newStr.length : Int) - oldStr.length) * n = product at hlow hhigh
  have hbound : (maxInputBytes * maxFileBytes + maxFileBytes : Int) ≤ i64Max := by decide
  have hbound' : i64Min ≤ -(maxInputBytes * maxFileBytes : Int) := by decide
  have hproduct : saturate product = product := saturate_eq (by omega) (by omega)
  rw [hproduct, saturate_eq (by omega) (by omega)]

/-! ## One call -/

structure Admits (target : Target) (p : StrReplaceParams) : Prop where
  oldStr_ne : p.oldStr ≠ []
  oldStr_le : p.oldStr.length ≤ maxInputBytes
  newStr_le : p.newStr.length ≤ maxInputBytes
  readable : readTextFile target = .ok target.content
  writable : target.writeFault = none

variable {target : Target}

theorem readTextFile_ok (h : readTextFile target = .ok content) :
    content = target.content ∧ content.length ≤ maxFileBytes := by
  unfold readTextFile at h
  split at h
  · cases h
  · split_ifs at h with hlarge
    cases h
    exact ⟨rfl, not_lt.mp hlarge⟩

theorem strReplace_ok_iff (target : Target) (p : StrReplaceParams) (n : Nat) (after : Target) :
    strReplace target p = (.ok n, after) ↔
      Admits target p ∧ n = countMatches target.content p ∧ n ≠ 0 ∧ (p.replaceAll = false → n ≤ 1) ∧
        0 ≤ projectedSize target.content p.oldStr p.newStr n ∧
        projectedSize target.content p.oldStr p.newStr n ≤ maxFileBytes ∧
        after = { target with content := newContent target.content p } := by
  unfold strReplace
  by_cases hempty : p.oldStr = []
  · rw [if_pos hempty]
    exact iff_of_false (by simp) fun h => h.1.oldStr_ne hempty
  rw [if_neg hempty]
  by_cases hlong : maxInputBytes < p.oldStr.length ∨ maxInputBytes < p.newStr.length
  · rw [if_pos hlong]
    refine iff_of_false (by simp) fun h => ?_
    have hold := h.1.oldStr_le
    have hnew := h.1.newStr_le
    omega
  rw [if_neg hlong]
  cases hread : readTextFile target with
  | error e => exact iff_of_false (by simp) fun h => by simpa [hread] using h.1.readable
  | ok content =>
    obtain ⟨rfl, -⟩ := readTextFile_ok hread
    simp only
    by_cases hzero : countMatches target.content p = 0
    · rw [if_pos hzero]
      exact iff_of_false (by simp) fun h => h.2.2.1 (h.2.1.trans hzero)
    rw [if_neg hzero]
    by_cases hmany : p.replaceAll = false ∧ 1 < countMatches target.content p
    · rw [if_pos hmany]
      refine iff_of_false (by simp) fun h => ?_
      have hle := h.2.2.2.1 hmany.1
      omega
    rw [if_neg hmany]
    by_cases hsize :
        projectedSize target.content p.oldStr p.newStr (countMatches target.content p) < 0 ∨
        maxFileBytes <
          projectedSize target.content p.oldStr p.newStr (countMatches target.content p)
    · rw [if_pos hsize]
      refine iff_of_false (by simp) fun h => ?_
      obtain ⟨-, rfl, -, -, hlow, hhigh, -⟩ := h
      omega
    rw [if_neg hsize]
    cases hwrite : target.writeFault with
    | some text =>
      simp only [atomicWrite, hwrite]
      exact iff_of_false (by simp) fun h => by simpa [hwrite] using h.1.writable
    | none =>
      simp only [atomicWrite, hwrite, Prod.mk.injEq, Except.ok.injEq]
      constructor
      · rintro ⟨rfl, rfl⟩
        refine ⟨⟨hempty, by omega, by omega, hread, hwrite⟩, rfl, hzero, ?_, by omega, by omega,
          rfl⟩
        intro hall
        by_contra hgt
        exact hmany ⟨hall, by omega⟩
      · rintro ⟨-, rfl, -, -, -, -, rfl⟩
        exact ⟨rfl, rfl⟩

variable {p : StrReplaceParams}

theorem strReplace_error {after : Target} {e : ToolError}
    (h : strReplace target p = (.error e, after)) : after = target := by
  unfold strReplace at h
  split at h
  · exact (congrArg Prod.snd h).symm
  split at h
  · exact (congrArg Prod.snd h).symm
  split at h
  · exact (congrArg Prod.snd h).symm
  simp only at h
  split at h
  · exact (congrArg Prod.snd h).symm
  split at h
  · exact (congrArg Prod.snd h).symm
  split at h
  · exact (congrArg Prod.snd h).symm
  split at h
  · exact (congrArg Prod.snd h).symm
  · cases h

/-! ## A unique place -/

variable {i : Nat}

theorem find_eq_of_unique {text pattern : Bytes} (hne : pattern ≠ []) (hi : OccursAt text pattern i)
    (hunique : ∀ j, OccursAt text pattern j → j = i) : find pattern text = some i := by
  cases hfind : find pattern text with
  | none => exact absurd hi ((find_eq_none_iff hne).mp hfind i)
  | some j => rw [hunique j (find_eq_some hfind).1]

theorem replaceOnce_eq {oldStr newStr : Bytes} (hfind : find oldStr content = some i) :
    replaceOnce content oldStr newStr = splice content oldStr newStr i := by
  rw [replaceOnce, hfind]

theorem projectedSize_newContent (h : Admits target p)
    (hcount : p.replaceAll = false → countMatches target.content p = 1) :
    projectedSize target.content p.oldStr p.newStr (countMatches target.content p) =
      (newContent target.content p).length := by
  have hcontent := (readTextFile_ok h.readable).2
  cases hall : p.replaceAll with
  | true =>
    have hlength := length_replace p.newStr h.oldStr_ne (Nat.zero_le target.content.length)
    simp only [countMatches, newContent, hall, if_true]
    rw [projectedSize_eq hcontent h.oldStr_le h.newStr_le (count_le_length _ _ _), Int.sub_mul]
    generalize count p.oldStr 0 target.content = n at hlength ⊢
    rw [Nat.mul_comm n, Nat.mul_comm n] at hlength
    omega
  | false =>
    have hone := hcount hall
    rw [hone]
    simp only [countMatches, newContent, hall, Bool.false_eq_true, if_false] at hone ⊢
    cases hfind : find p.oldStr target.content with
    | none => simp [countOccurrencesCapped, h.oldStr_ne, hfind] at hone
    | some pos =>
      have hoccurs := (find_eq_some hfind).1
      have hlength : (splice _ _ p.newStr _).length + _ = _ := length_splice h.oldStr_ne hoccurs
      have hle := hoccurs.le_length h.oldStr_ne
      have hpos := List.length_pos_of_ne_nil h.oldStr_ne
      rw [replaceOnce_eq hfind,
        projectedSize_eq hcontent h.oldStr_le h.newStr_le (by omega : 1 ≤ target.content.length)]
      omega

theorem strReplace_all_ok_iff (hall : p.replaceAll = true) :
    (∃ n after, strReplace target p = (.ok n, after)) ↔
      Admits target p ∧ (∃ i, OccursAt target.content p.oldStr i) ∧
        (newContent target.content p).length ≤ maxFileBytes := by
  have hnot : p.replaceAll = false → countMatches target.content p = 1 := by simp [hall]
  simp only [strReplace_ok_iff]
  constructor
  · rintro ⟨n, after, hadmits, rfl, hne, -, -, hfits, -⟩
    rw [projectedSize_newContent hadmits hnot] at hfits
    refine ⟨hadmits, ?_, by omega⟩
    simp only [countMatches, hall, if_true] at hne
    exact (count_pos_iff hadmits.oldStr_ne).mp (Nat.pos_of_ne_zero hne)
  · rintro ⟨hadmits, hoccurs, hfits⟩
    have hpos := (count_pos_iff hadmits.oldStr_ne).mpr hoccurs
    refine ⟨_, _, hadmits, rfl, ?_, by simp [hall], ?_, ?_, rfl⟩
    · simp only [countMatches, hall, if_true]
      exact hpos.ne'
    · rw [projectedSize_newContent hadmits hnot]
      omega
    · rw [projectedSize_newContent hadmits hnot]
      omega

theorem strReplace_one_ok {after : Target} {n : Nat} (hone : p.replaceAll = false)
    (h : strReplace target p = (.ok n, after)) : ∃ i, OccursAt target.content p.oldStr i ∧
      after = { target with content := splice target.content p.oldStr p.newStr i } ∧
      ∀ j, OccursAt target.content p.oldStr j → i ≤ j ∧ j < i + p.oldStr.length := by
  obtain ⟨hadmits, rfl, hne, hle, -, -, rfl⟩ := (strReplace_ok_iff _ _ _ _).mp h
  have hcount : countMatches target.content p = 1 := by
    have hle := hle hone
    omega
  simp only [countMatches, newContent, hone, Bool.false_eq_true, if_false] at hcount ⊢
  cases hfind : find p.oldStr target.content with
  | none => simp [countOccurrencesCapped, hadmits.oldStr_ne, hfind] at hcount
  | some pos =>
    obtain ⟨hoccurs, hfirst⟩ := find_eq_some hfind
    rw [replaceOnce_eq hfind]
    refine ⟨pos, hoccurs, rfl, fun j hj => ⟨?_, ?_⟩⟩
    · by_contra hlt
      exact hfirst j (not_le.mp hlt) hj
    · exact (countOccurrencesCapped_eq_one hadmits.oldStr_ne hfind).mp hcount j hj

theorem strReplace_unique_ok_iff (hone : p.replaceAll = false)
    (hi : OccursAt target.content p.oldStr i)
    (hunique : ∀ j, OccursAt target.content p.oldStr j → j = i) :
    (∃ n after, strReplace target p = (.ok n, after)) ↔
      Admits target p ∧
        (splice target.content p.oldStr p.newStr i).length ≤ maxFileBytes := by
  have hcount : p.oldStr ≠ [] → countMatches target.content p = 1 := by
    intro hne
    simp only [countMatches, hone, Bool.false_eq_true, if_false]
    refine (countOccurrencesCapped_eq_one hne (find_eq_of_unique hne hi hunique)).mpr ?_
    intro j hj
    have hpos := List.length_pos_of_ne_nil hne
    rw [hunique j hj]
    omega
  have hnew : p.oldStr ≠ [] →
      newContent target.content p = splice target.content p.oldStr p.newStr i := by
    intro hne
    simp only [newContent, hone, Bool.false_eq_true, if_false]
    exact replaceOnce_eq (find_eq_of_unique hne hi hunique)
  simp only [strReplace_ok_iff]
  constructor
  · rintro ⟨n, after, hadmits, rfl, -, -, -, hfits, -⟩
    rw [projectedSize_newContent hadmits fun _ => hcount hadmits.oldStr_ne,
      hnew hadmits.oldStr_ne] at hfits
    exact ⟨hadmits, by omega⟩
  · rintro ⟨hadmits, hfits⟩
    have hsize := projectedSize_newContent hadmits fun _ => hcount hadmits.oldStr_ne
    rw [hnew hadmits.oldStr_ne] at hsize
    refine ⟨_, _, hadmits, rfl, ?_, fun _ => (hcount hadmits.oldStr_ne).le, ?_, ?_, rfl⟩
    · rw [hcount hadmits.oldStr_ne]
      exact Nat.one_ne_zero
    · rw [hsize]
      omega
    · rw [hsize]
      omega

/-- For a call that passes the guards on its arguments and on the file, and whose write
goes through: a unique occurrence is edited exactly when the result fits; an absent one,
and two that do not overlap, are refused; with `replaceAll` the call succeeds exactly
when there is an occurrence and the result fits, and the projected size is the real one.
A call that fails leaves the file as it was. -/
theorem strReplace_edits_unique_place (target : Target) (p : StrReplaceParams) :
    (∀ e after, strReplace target p = (.error e, after) → after = target) ∧
    (p.replaceAll = false →
      (∀ i, OccursAt target.content p.oldStr i →
        (∀ j, OccursAt target.content p.oldStr j → j = i) →
        ((∃ n after, strReplace target p = (.ok n, after)) ↔
          Admits target p ∧
            (splice target.content p.oldStr p.newStr i).length ≤ maxFileBytes)) ∧
      (∀ n after, strReplace target p = (.ok n, after) →
        ∃ i, OccursAt target.content p.oldStr i ∧
          after = { target with content := splice target.content p.oldStr p.newStr i } ∧
          ∀ j, OccursAt target.content p.oldStr j → i ≤ j ∧ j < i + p.oldStr.length)) ∧
    (p.replaceAll = true →
      ((∃ n after, strReplace target p = (.ok n, after)) ↔
        Admits target p ∧ (∃ i, OccursAt target.content p.oldStr i) ∧
          (newContent target.content p).length ≤ maxFileBytes) ∧
      (Admits target p →
        projectedSize target.content p.oldStr p.newStr (countMatches target.content p) =
          (newContent target.content p).length)) := by
  refine ⟨fun e after => strReplace_error, ?_, ?_⟩
  · intro hone
    exact ⟨fun i hi hunique => strReplace_unique_ok_iff hone hi hunique,
      fun n after => strReplace_one_ok hone⟩
  · intro hall
    exact ⟨strReplace_all_ok_iff hall,
      fun hadmits => projectedSize_newContent hadmits (by simp [hall])⟩

def demoTarget (text : String) : Target := ⟨text.toUTF8.data.toList, none, none⟩

def demoParams (oldStr newStr : String) (replaceAll : Bool) : StrReplaceParams :=
  ⟨oldStr.toUTF8.data.toList, newStr.toUTF8.data.toList, replaceAll⟩

theorem strReplace_edits_unique_place_demo :
    (∃ n after, strReplace (demoTarget "abc") (demoParams "b" "xy" false) = (.ok n, after)) ∧
      ∃ n after, strReplace (demoTarget "aaaa") (demoParams "aa" "x" true) = (.ok n, after) := by
  have hone := (strReplace_edits_unique_place (demoTarget "abc") (demoParams "b" "xy" false)).2.1 rfl
  have hall := (strReplace_edits_unique_place (demoTarget "aaaa") (demoParams "aa" "x" true)).2.2 rfl
  refine ⟨(hone.1 1 (by decide +kernel) ?_).mpr ?_, hall.1.mpr ?_⟩
  · intro j hj
    have hle := hj.le_length (by decide +kernel)
    have hlast : (demoTarget "abc").content.length = 3 := by decide +kernel
    have hpattern : (demoParams "b" "xy" false).oldStr.length = 1 := by decide +kernel
    have hcases : j = 0 ∨ j = 1 ∨ j = 2 := by omega
    rcases hcases with rfl | rfl | rfl
    · exact absurd hj (by decide +kernel)
    · rfl
    · exact absurd hj (by decide +kernel)
  · exact ⟨⟨by decide +kernel, by decide +kernel, by decide +kernel, by decide +kernel, rfl⟩,
      by decide +kernel⟩
  · exact ⟨⟨by decide +kernel, by decide +kernel, by decide +kernel, by decide +kernel, rfl⟩,
      ⟨0, by decide +kernel⟩, by decide +kernel⟩

/-- Two occurrences that overlap are counted as one, and an argument over the limit is
refused even when its occurrence is unique. -/
theorem overlap_counts_once_long_argument_refused :
    (strReplace (demoTarget "aaa") (demoParams "aa" "b" false) = (.ok 1, demoTarget "ba") ∧
      OccursAt (demoTarget "aaa").content (demoParams "aa" "b" false).oldStr 0 ∧
      OccursAt (demoTarget "aaa").content (demoParams "aa" "b" false).oldStr 1) ∧
    ∃ long : Bytes, long ≠ [] ∧
      (∀ i, OccursAt long long i ↔ i = 0) ∧ (splice long long [] 0).length ≤ maxFileBytes ∧
      strReplace ⟨long, none, none⟩ ⟨long, [], false⟩ =
        (.error .inputTooLong, ⟨long, none, none⟩) := by
  refine ⟨⟨by decide +kernel, by decide +kernel, by decide +kernel⟩, ?_⟩
  have hlength : (List.replicate (maxInputBytes + 1) (97 : UInt8)).length = maxInputBytes + 1 :=
    List.length_replicate
  generalize List.replicate (maxInputBytes + 1) (97 : UInt8) = long at hlength
  have hne : long ≠ [] := by
    rintro rfl
    cases hlength
  refine ⟨long, hne, ?_, ?_, ?_⟩
  · intro i
    constructor
    · intro hi
      have hle := hi.le_length hne
      omega
    · rintro rfl
      exact List.prefix_rfl
  · have hempty : splice long long [] 0 = [] := by
      rw [splice, Nat.zero_add, List.take_zero, List.drop_length]
      rfl
    rw [hempty]
    exact Nat.zero_le _
  · rw [strReplace, if_neg hne, if_pos (Or.inl (by simp only [hlength]; exact Nat.lt_succ_self _))]

end Vingilot.DevMcp
