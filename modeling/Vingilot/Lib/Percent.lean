import Vingilot.Lib.Codes
import Vingilot.Lib.Json

/-!
# Percent coding

Every byte of the text but an ASCII letter or digit is written as `%` and two hex digits.
-/

namespace Percent

theorem splitOn_append_flatMap {α : Type*} [BEq α] [LawfulBEq α] {sep : α} {first : List α}
    (hfirst : sep ∉ first) {parts : List (List α)} (hparts : ∀ part ∈ parts, sep ∉ part) :
    (first ++ parts.flatMap fun part => sep :: part).splitOn sep = first :: parts := by
  induction parts generalizing first with
  | nil => rw [List.flatMap_nil, List.append_nil, List.splitOn_eq_singleton hfirst]
  | cons part parts ih =>
    rw [List.flatMap_cons, List.cons_append, List.splitOn_append_cons_self_of_not_mem hfirst,
      ih (hparts part List.mem_cons_self) fun p hp => hparts p (List.mem_cons_of_mem _ hp)]

def upperDigit (n : Nat) : Char := "0123456789ABCDEF".toList.getD n '0'

def isAlphanumericByte (b : UInt8) : Bool :=
  (48 ≤ b && b ≤ 57) || (65 ≤ b && b ≤ 90) || (97 ≤ b && b ≤ 122)

def encodeByte (b : UInt8) : List Char :=
  if isAlphanumericByte b then [Char.ofNat b.toNat]
  else ['%', upperDigit (b.toNat / 16), upperDigit (b.toNat % 16)]

def encode (text : List Char) : List Char := (Codes.utf8 text).flatMap encodeByte

/-- A `%` without two hex digits behind it stands for itself. -/
def decode : List Char → List UInt8
  | [] => []
  | '%' :: a :: b :: rest =>
    match Json.hexValue a, Json.hexValue b with
    | some high, some low => UInt8.ofNat (high * 16 + low) :: decode rest
    | _, _ => 37 :: decode (a :: b :: rest)
  | c :: rest => String.utf8EncodeChar c ++ decode rest

/-! ## Encoded bytes -/

theorem isAlphanumericByte_iff (b : UInt8) : isAlphanumericByte b = true ↔
    (48 ≤ b.toNat ∧ b.toNat ≤ 57) ∨ (65 ≤ b.toNat ∧ b.toNat ≤ 90) ∨
      (97 ≤ b.toNat ∧ b.toNat ≤ 122) := by
  simp [isAlphanumericByte, UInt8.le_iff_toNat_le, or_assoc]

theorem toNat_char {b : UInt8} : (Char.ofNat b.toNat).toNat = b.toNat := by
  have hb : b.toNat < 256 := b.toNat_lt
  have hvalid : b.toNat.isValidChar := Or.inl (by omega)
  unfold Char.ofNat
  rw [dif_pos hvalid]
  rfl

theorem hexValue_upperDigit : ∀ n < 16, Json.hexValue (upperDigit n) = some n := by decide

theorem isAlphanum_upperDigit : ∀ n < 16, (upperDigit n).isAlphanum = true := by decide

theorem isAlphanum_of_mem_encode {text : List Char} {c : Char} (h : c ∈ encode text) :
    c = '%' ∨ c.isAlphanum = true := by
  obtain ⟨b, -, hc⟩ := List.mem_flatMap.mp h
  have hb : b.toNat < 256 := b.toNat_lt
  unfold encodeByte at hc
  split_ifs at hc with halnum
  · rw [List.mem_singleton] at hc
    right
    rw [isAlphanumericByte_iff] at halnum
    have htoNat : c.toNat = b.toNat := by rw [hc, toNat_char]
    have hval : c.val.toNat = b.toNat := htoNat
    unfold Char.isAlphanum Char.isAlpha Char.isUpper Char.isLower Char.isDigit
    simp only [Bool.or_eq_true, Bool.and_eq_true, decide_eq_true_eq, UInt32.le_iff_toNat_le,
      ge_iff_le]
    have hbounds : '0'.val.toNat = 48 ∧ '9'.val.toNat = 57 ∧ 'A'.val.toNat = 65 ∧
        'Z'.val.toNat = 90 ∧ 'a'.val.toNat = 97 ∧ 'z'.val.toNat = 122 := by decide
    omega
  · simp only [List.mem_cons, List.not_mem_nil, or_false] at hc
    rcases hc with rfl | rfl | rfl
    · exact Or.inl rfl
    · exact Or.inr (isAlphanum_upperDigit _ (by omega))
    · exact Or.inr (isAlphanum_upperDigit _ (by omega))

theorem decode_cons {c : Char} (h : c ≠ '%') (rest : List Char) :
    decode (c :: rest) = String.utf8EncodeChar c ++ decode rest := by
  rw [decode]
  intro a b tail heq
  exact absurd heq h

theorem decode_encodeByte (b : UInt8) (rest : List Char) :
    decode (encodeByte b ++ rest) = b :: decode rest := by
  have hb : b.toNat < 256 := b.toNat_lt
  unfold encodeByte
  split_ifs with halnum
  · rw [isAlphanumericByte_iff] at halnum
    have hne : Char.ofNat b.toNat ≠ '%' := by
      intro heq
      have hcode := congrArg Char.toNat heq
      rw [toNat_char] at hcode
      simp at hcode
      omega
    have hval : (Char.ofNat b.toNat).val.toNat = b.toNat := toNat_char
    have hone : String.utf8EncodeChar (Char.ofNat b.toNat) = [b] := by
      unfold String.utf8EncodeChar
      rw [hval]
      simp only
      rw [if_pos (by omega), UInt8.ofNat_toNat]
    rw [List.cons_append, List.nil_append, decode_cons hne, hone]
    rfl
  · have hsum : b.toNat / 16 * 16 + b.toNat % 16 = b.toNat := by omega
    simp only [List.cons_append, List.nil_append, decode, hexValue_upperDigit _
      (show b.toNat / 16 < 16 by omega), hexValue_upperDigit _ (show b.toNat % 16 < 16 by omega),
      hsum, UInt8.ofNat_toNat]

theorem decode_encode (text : List Char) : decode (encode text) = Codes.utf8 text := by
  unfold encode
  induction Codes.utf8 text with
  | nil => rfl
  | cons b bytes ih => rw [List.flatMap_cons, decode_encodeByte, ih]

end Percent
