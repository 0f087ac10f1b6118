import Mathlib.Data.List.TakeWhile
import Vingilot.Lib.Json
import Vingilot.Pairing.Session

/-!
# Pairing messages as JSON (`buzz-core/src/pairing/types.rs`)

A message is an object whose member `type` names it. Members that are not known are left alone.
-/

namespace Vingilot.Pairing

open Json

/-! ## Writing -/

def PayloadType.text : PayloadType → String
  | nsec => "nsec"
  | bunker => "bunker"
  | connect => "connect"
  | custom => "custom"

def AbortReason.text : AbortReason → String
  | sasMismatch => "sas_mismatch"
  | userDenied => "user_denied"
  | timeout => "timeout"
  | protocolError => "protocol_error"
  | unknown => "unknown"

namespace PairingMessage

def members : PairingMessage → List (String × Value)
  | offer sessionId version =>
    [("type", .str "offer"), ("session_id", .str sessionId),
      ("version", .num (Nat.toDigits 10 version.toNat))]
  | sasConfirm transcriptHash => [("type", .str "sas-confirm"), ("transcript_hash", .str transcriptHash)]
  | payload payloadType text =>
    [("type", .str "payload"), ("payload_type", .str payloadType.text), ("payload", .str text)]
  | complete success => [("type", .str "complete"), ("success", .bool success)]
  | abort reason => [("type", .str "abort"), ("reason", .str reason.text)]

def toJson (message : PairingMessage) : String := String.ofList (render (.obj message.members))

end PairingMessage

/-! ## Reading -/

def PayloadType.ofText? (text : String) : Option PayloadType :=
  [nsec, bunker, connect, custom].find? (·.text == text)

/-- Reasons that are not known are read as `unknown`. -/
def AbortReason.ofText (text : String) : AbortReason :=
  ([sasMismatch, userDenied, timeout, protocolError].find? (·.text == text)).getD .unknown

def member? (members : List (String × Value)) (key : String) : Option Value :=
  (members.find? (·.1 == key)).map (·.2)

def stringMember? (members : List (String × Value)) (key : String) : Option String :=
  match member? members key with
  | some (.str text) => some text
  | _ => none

def versionMember? (members : List (String × Value)) : Option (BitVec 32) :=
  match member? members "version" with
  | none => some 1
  | some (.num text) =>
    let version := Nat.ofDigitChars 10 text 0
    if text.all isDigit && decide (version < 2 ^ 32) then some (.ofNat 32 version) else none
  | some _ => none

def boolMember? (members : List (String × Value)) (key : String) : Option Bool :=
  match member? members key with
  | some (.bool b) => some b
  | _ => none

namespace PairingMessage

def ofMembers? (members : List (String × Value)) : Option PairingMessage := do
  match ← stringMember? members "type" with
  | "offer" => some (.offer (← stringMember? members "session_id") (← versionMember? members))
  | "sas-confirm" => some (.sasConfirm (← stringMember? members "transcript_hash"))
  | "payload" =>
    let payloadType ← (stringMember? members "payload_type").bind PayloadType.ofText?
    some (.payload payloadType (← stringMember? members "payload"))
  | "complete" => some (.complete (← boolMember? members "success"))
  | "abort" => some (.abort (.ofText (← stringMember? members "reason")))
  | _ => none

def fromJson (text : String) : Option PairingMessage :=
  match parse text.toList with
  | some (.obj members) => ofMembers? members
  | _ => none

end PairingMessage

/-! ## A message is read back -/

namespace PairingMessage

theorem valid_members (message : PairingMessage) : Valid (.obj message.members) := by
  refine .obj _ ?_
  cases message with
  | offer sessionId version =>
    simp [members, valid_toDigits, Valid.str]
  | complete success => simp [members, Valid.str, Valid.bool]
  | sasConfirm | payload | abort => simp [members, Valid.str]

theorem fromJson_toJson (message : PairingMessage) : fromJson message.toJson = some message := by
  rw [fromJson, toJson, String.toList_ofList, parse_render message.valid_members]
  cases message with
  | offer sessionId version =>
    have hversion : versionMember? (offer sessionId version).members = some version := by
      have hmember : member? (offer sessionId version).members "version" =
        some (.num (Nat.toDigits 10 version.toNat)) := rfl
      rw [versionMember?, hmember]
      simp only [List.all_eq_true.mpr isDigit_of_mem_toDigits, Nat.ofDigitChars_ten_toDigits,
        Bool.true_and, decide_eq_true version.isLt, if_true, BitVec.ofNat_toNat,
        BitVec.setWidth_eq]
    show (versionMember? (offer sessionId version).members).bind _ = _
    rw [hversion]
    rfl
  | sasConfirm transcriptHash => rfl
  | payload payloadType text => cases payloadType <;> rfl
  | complete success => rfl
  | abort reason => cases reason <;> rfl

end PairingMessage

end Vingilot.Pairing
