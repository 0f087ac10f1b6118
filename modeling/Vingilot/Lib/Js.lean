import Mathlib.Data.Rat.Defs
import Mathlib.Algebra.Order.Ring.Rat
import Mathlib.Algebra.Order.Monoid.Unbundled.WithTop

/-!
# JavaScript values

Numbers with their comparisons, strings as UTF-16 code units, and the values
`JSON.parse` can return. `0` and `-0` are one number here: no comparison or
maximum tells them apart.
-/

namespace Js

/-! ## Numbers -/

/-- The numbers other than `NaN`: the finite ones, and the two infinities. -/
abbrev Extended := WithBot (WithTop ℚ)

inductive Number where
  | nan
  | num (x : Extended)
  deriving DecidableEq

namespace Number

instance : OfNat Number n := ⟨num ((n : ℚ) : WithTop ℚ)⟩

theorem zero_def : (0 : Number) = num 0 := rfl

def lt : Number → Number → Bool
  | num x, num y => decide (x < y)
  | _, _ => false

def le : Number → Number → Bool
  | num x, num y => decide (x ≤ y)
  | _, _ => false

def same : Number → Number → Bool
  | num x, num y => decide (x = y)
  | _, _ => false

def max : Number → Number → Number
  | num x, num y => num (Max.max x y)
  | _, _ => nan

def isInteger : Number → Bool
  | num (some (some q)) => q.den == 1
  | _ => false

def extended? : Number → Option Extended
  | num x => some x
  | nan => none

end Number

/-! ## Strings -/

/-- UTF-16 code units. A lone surrogate is allowed. -/
abbrev Str := List UInt16

def str (text : String) : Str := text.toList.map fun c => c.toNat.toUInt16

def isHighSurrogate (u : UInt16) : Bool := decide (0xd800 ≤ u ∧ u < 0xdc00)

def isLowSurrogate (u : UInt16) : Bool := decide (0xdc00 ≤ u ∧ u < 0xe000)

def unitSize (u : UInt16) : Nat := if u < 0x80 then 1 else if u < 0x800 then 2 else 3

/-- The length of what `TextEncoder.encode` gives. A lone surrogate is written as
the replacement character, of three bytes. -/
def utf8Size : Str → Nat
  | [] => 0
  | [u] => unitSize u
  | u :: w :: rest =>
    if isHighSurrogate u && isLowSurrogate w then 4 + utf8Size rest
    else unitSize u + utf8Size (w :: rest)

def isAscii (text : Str) : Bool := text.all fun u => decide (u ≤ 0x7f)

/-! ## Values -/

/-- What `JSON.parse` returns. The members of an object have distinct names. -/
inductive Value where
  | null
  | bool (b : Bool)
  | num (n : Number)
  | str (text : Str)
  | arr (items : List Value)
  | obj (members : List (Str × Value))

def property (members : List (Str × Value)) (name : Str) : Option Value := members.lookup name

end Js
