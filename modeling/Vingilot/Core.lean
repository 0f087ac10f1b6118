import Mathlib.Algebra.Order.Ring.Int
import Mathlib.Data.List.Basic

/-! # Identifiers, events and filters shared by the relay's parts -/

namespace Vingilot

abbrev Uuid := BitVec 128

instance : LawfulBEq Uuid := inferInstance

abbrev CommunityId := Uuid

/-- A Nostr kind is a `u16`. Two kinds are equal when their numbers are. -/
abbrev Kind := Nat

def hexDigit (n : Nat) : Char := "0123456789abcdef".toList.getD n '0'

def Uuid.toText (u : Uuid) : String :=
  let digits := (List.range 32).map fun i => hexDigit (u.toNat >>> (4 * (31 - i)) % 16)
  let group (start len : Nat) := (digits.drop start).take len
  String.ofList (group 0 8 ++ '-' :: group 8 4 ++ '-' :: group 12 4 ++ '-' :: group 16 4 ++
    '-' :: group 20 12)

structure Tag where
  kind : String
  values : List String
deriving DecidableEq

def Tag.content (t : Tag) : Option String := t.values.head?

structure Event where
  id : String
  pubkey : String
  createdAt : Nat
  kind : Kind
  tags : List Tag
deriving DecidableEq

/-- An event with its channel scope. `none` is the community-global scope. -/
structure StoredEvent where
  event : Event
  channelId : Option Uuid

structure Filter where
  ids : Option (List String)
  authors : Option (List String)
  kinds : Option (List Kind)
  since : Option Nat
  until_ : Option Nat
  genericTags : List (Char × List String)
deriving DecidableEq

end Vingilot
