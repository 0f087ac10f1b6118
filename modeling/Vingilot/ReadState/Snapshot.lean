import Vingilot.Lib.Collections
import Vingilot.Lib.Js

/-!
# Read-state events

What one read-state event says: the checks of `readStateFormat.ts` on the slot
tag and on the decrypted blob, and `parseReadStateEvent` which puts them together.
Whether the content can be decrypted and parsed is an argument.
-/

namespace Vingilot.ReadState

open Js

abbrev ContextId := Str

/-! ## The format -/

def readStateDTagPrefix : Str := str "read-state:"

def maxContexts : Nat := 10000

structure ReadStateBlob where
  clientId : Str
  contexts : Table ContextId Number

/-- `isValidBlob`, which hands on the two fields it has checked. -/
def validBlob (parsed : Value) : Option (Str × List (Str × Value)) :=
  match parsed with
  | .obj record =>
    match property record (str "v"), property record (str "client_id"),
        property record (str "contexts") with
    | some (.num v), some (.str clientId), some (.obj contexts) =>
      if !v.same 1 then none
      else if clientId.length = 0 ∨ 64 < clientId.length then none
      else if maxContexts < contexts.length then none
      else some (clientId, contexts)
    | _, _, _ => none
  | _ => none

/-- The checks on one entry of `contexts`. -/
def sanitizeEntry (key : Str) (value : Value) : Option Number :=
  if 256 < utf8Size key then none
  else
    match value with
    | .num n =>
      if !n.isInteger then none
      else if n.lt 0 || Number.lt 4294967295 n then none
      else some n
    | _ => none

/-- Assigning a number to `__proto__` of a plain object does nothing, so that key never
comes through. -/
def sanitizeInto (result : Table ContextId Number) (entry : Str × Value) :
    Table ContextId Number :=
  match sanitizeEntry entry.1 entry.2 with
  | some n => if entry.1 = str "__proto__" then result else result.set entry.1 n
  | none => result

def sanitizeContexts (contexts : List (Str × Value)) : Table ContextId Number :=
  contexts.foldl sanitizeInto ∅

def isValidReadStateDTag (value : Option Str) : Bool :=
  match value with
  | none => false
  | some value =>
    if readStateDTagPrefix.isPrefixOf value then
      let slotId := value.drop readStateDTagPrefix.length
      decide (0 < slotId.length ∧ slotId.length ≤ 64) && isAscii slotId
    else false

/-! ## One event -/

structure RelayEvent where
  pubkey : Str
  createdAt : Int
  tags : List (List Str)

structure ParsedReadStateEvent where
  dTag : Str
  blob : ReadStateBlob
  createdAt : Int

/-- `opened` is what decrypting the content and `JSON.parse` give, `none` when one of
them throws. -/
def parseReadStateEvent (event : RelayEvent) (pubkey : Str) (opened : Option Value) :
    Option ParsedReadStateEvent :=
  if event.pubkey ≠ pubkey then none
  else
    match event.tags.filter (fun tag => tag.head? == some (str "d")) with
    | [dTag] =>
      match dTag[1]? with
      | some slot =>
        if !isValidReadStateDTag (some slot) then none
        else if (event.tags.filter fun tag =>
            tag.head? == some (str "t") && tag[1]? == some (str "read-state")).length ≠ 1 then none
        else do
          let (clientId, contexts) ← validBlob (← opened)
          some ⟨slot, ⟨clientId, sanitizeContexts contexts⟩, event.createdAt⟩
      | none => none
    | _ => none

/-! ## What a blob can hold -/

def Timestamp (n : Number) : Prop := ∃ x : Extended, n = .num x ∧ 0 ≤ x

variable {n : Number}

theorem timestamp_of_sanitizeEntry {key : Str} {value : Value}
    (h : sanitizeEntry key value = some n) : Timestamp n := by
  unfold sanitizeEntry at h
  split_ifs at h
  cases value with
  | num m =>
    simp only at h
    split_ifs at h with hint hrange
    cases h
    cases n with
    | nan => simp [Number.isInteger] at hint
    | num x =>
      refine ⟨x, rfl, ?_⟩
      simp only [Bool.or_eq_true, not_or, Bool.not_eq_true] at hrange
      exact not_lt.mp (of_decide_eq_false hrange.1)
  | _ => simp at h

variable {key : ContextId}

theorem timestamp_of_sanitizeInto {t : Table ContextId Number} {entry : Str × Value}
    (ht : ∀ key n, t.get? key = some n → Timestamp n) (h : (sanitizeInto t entry).get? key = some n) :
    Timestamp n := by
  unfold sanitizeInto at h
  split at h
  · rename_i m hentry
    split_ifs at h
    · exact ht key n h
    · rw [Table.get?_set] at h
      split_ifs at h
      · cases h
        exact timestamp_of_sanitizeEntry hentry
      · exact ht key n h
  · exact ht key n h

theorem timestamp_of_sanitizeContexts {contexts : List (Str × Value)}
    (h : (sanitizeContexts contexts).get? key = some n) : Timestamp n := by
  have hfold : ∀ (entries : List (Str × Value)) (t : Table ContextId Number),
      (∀ key n, t.get? key = some n → Timestamp n) →
      ∀ key n, (entries.foldl sanitizeInto t).get? key = some n → Timestamp n := by
    intro entries
    induction entries with
    | nil => exact fun t ht => ht
    | cons entry rest ih => exact fun t ht => ih _ fun key n => timestamp_of_sanitizeInto ht
  exact hfold contexts ∅ (fun key n hn => by simp at hn) key n h

theorem timestamp_of_parse {event : RelayEvent} {pubkey : Str} {opened : Option Value}
    {parsed : ParsedReadStateEvent} (h : parseReadStateEvent event pubkey opened = some parsed)
    (hn : parsed.blob.contexts.get? key = some n) : Timestamp n := by
  unfold parseReadStateEvent at h
  split at h
  · cases h
  split at h
  · split at h
    · split at h
      · cases h
      split at h
      · cases h
      simp only [Option.bind_eq_bind, Option.bind_eq_some_iff] at h
      obtain ⟨value, _, ⟨clientId, contexts⟩, _, hparsed⟩ := h
      cases hparsed
      exact timestamp_of_sanitizeContexts hn
    · cases h
  · cases h

end Vingilot.ReadState
