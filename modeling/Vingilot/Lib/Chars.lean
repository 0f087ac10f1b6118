import Mathlib.Algebra.Order.Ring.Nat
import Mathlib.Data.List.Basic

/-! # The string functions of the standard library that the parsers use

Strings are taken apart as lists of characters. Lengths in bytes are those of `String`.
-/

namespace Vingilot.Text

/-- `char::is_whitespace`: the `White_Space` property of Unicode. -/
def isWhitespace (c : Char) : Bool :=
  let n := c.toNat
  (9 ≤ n && n ≤ 13) || n == 0x20 || n == 0x85 || n == 0xA0 || n == 0x1680 ||
    (0x2000 ≤ n && n ≤ 0x200A) || n == 0x2028 || n == 0x2029 || n == 0x202F || n == 0x205F ||
    n == 0x3000

def trim (s : List Char) : List Char :=
  ((s.dropWhile isWhitespace).reverse.dropWhile isWhitespace).reverse

def contains (s sub : List Char) : Bool := s.tails.any fun t => sub.isPrefixOf t

def stripSuffix (s : List Char) (c : Char) : Option (List Char) :=
  if s.getLast? = some c then some s.dropLast else none

/-- `str::lines` after the characters `line` of the current line. A line ends with `\n` or
`\r\n`, and the last one need not end. -/
def linesFrom (line : List Char) : List Char → List (List Char)
  | [] => if line.isEmpty then [] else [line]
  | c :: rest =>
    if c = '\n' then (stripSuffix line '\r').getD line :: linesFrom [] rest
    else linesFrom (line ++ [c]) rest

def lines (text : List Char) : List (List Char) := linesFrom [] text

theorem linesFrom_append {line rest : List Char} (acc : List Char) (h : ∀ c ∈ line, c ≠ '\n') :
    linesFrom acc (line ++ '\n' :: rest) =
      (stripSuffix (acc ++ line) '\r').getD (acc ++ line) :: linesFrom [] rest := by
  induction line generalizing acc with
  | nil => simp [linesFrom]
  | cons c line ih =>
    rw [List.cons_append, linesFrom, if_neg (h c List.mem_cons_self),
      ih _ fun d hd => h d (List.mem_cons_of_mem _ hd), List.append_assoc]
    rfl

/-- `str::split_whitespace().count()`. The flag says that the last character was part of a
field. -/
def fieldCount (inField : Bool) : List Char → Nat
  | [] => 0
  | c :: rest =>
    if isWhitespace c then fieldCount false rest
    else if inField then fieldCount true rest
    else fieldCount true rest + 1

def digitValue (c : Char) : Option Nat :=
  if '0' ≤ c ∧ c ≤ '9' then some (c.toNat - '0'.toNat) else none

def parseDigits (acc : Nat) : List Char → Option Nat
  | [] => some acc
  | c :: rest =>
    match digitValue c with
    | none => none
    | some d => if acc * 10 + d < 2 ^ 64 then parseDigits (acc * 10 + d) rest else none

def parseU64 : List Char → Option Nat
  | [] => none
  | ['+'] => none
  | '+' :: digits => parseDigits 0 digits
  | digits => parseDigits 0 digits

theorem fromUTF8?_toUTF8 (s : String) : String.fromUTF8? s.toUTF8 = some s := by
  unfold String.fromUTF8?
  rw [String.toUTF8_eq_toByteArray, dif_pos s.isValidUTF8]
  rfl

end Vingilot.Text
