import Vingilot.Huddle.Room
import Vingilot.Lib.Collections

/-!
# The connections of one huddle on one pod (`buzz-relay/src/audio/handler.rs`)

A handler keeps the room that `get_or_create` gave it over its awaits, while the manager's map may
come to hold another one. Every operation on the map and on a room is one step.
-/

namespace Vingilot.Huddle

inductive Phase where
  | fetched (room : Nat)
  | checked (room : Nat)
  | refused
  | admitted (room : Nat) (peerId : Uuid) (remote : Bool)
  | emptied (room : Nat)
  | leaving

/-- The rooms are named in the order in which they were made. `archivedOver` is kept for the
statements only: a channel was archived while a participant was connected. -/
structure Pod where
  rooms : Table Nat Room
  made : Nat
  current : Option Nat
  archived : Bool
  conns : Table Nat Phase
  archivedOver : Bool

def Pod.init : Pod := ⟨∅, 0, none, false, ∅, false⟩

def Phase.isAdmitted : Phase → Bool
  | .admitted .. => true
  | _ => false

namespace Pod

def getOrCreate (w : Pod) : Pod × Nat :=
  match w.current with
  | some k => (w, k)
  | none =>
    ({ w with rooms := w.rooms.set w.made Room.new, made := w.made + 1, current := some w.made },
      w.made)

def evicts (w : Pod) : Bool :=
  match w.current.bind w.rooms.get? with
  | some r => r.isEmpty
  | none => false

def cleanupIfEmpty (w : Pod) : Pod := if w.evicts then { w with current := none } else w

end Pod

inductive ConnAction where
  | getOrCreate (c : Nat)
  | check (c : Nat) (fails : Bool)
  /-- A version that is not supported (no clean-up), or an owner that rejects or is not reached. -/
  | refuse (c : Nat) (cleans : Bool)
  /-- `add_peer`, or `add_peer_at_index` of an index that the owner has given. -/
  | addPeer (c : Nat) (peerId : Uuid) (pubkey : String) (version : UInt8) (remote : Option UInt8)
  | leave (c : Nat)
  | archive (c : Nat) (fails : Bool)
  | cleanup (c : Nat)

def admission (r : Room) (peerId : Uuid) (pubkey : String) (version : UInt8) :
    Option UInt8 → Except AdmissionError Room
  | none => (r.addPeer peerId pubkey version).map Prod.fst
  | some idx => r.addPeerAtIndex peerId pubkey version idx

def departure (r : Room) (peerId : Uuid) (remote : Bool) : Room × Bool :=
  if remote then (r.removePeer peerId, false)
  else
    match r.removePeerAndCheckEnded peerId with
    | some (r, _, shouldAutoEnd) => (r, shouldAutoEnd)
    | none => (r, false)

def connStep (w : Pod) : ConnAction → Option Pod
  | .getOrCreate c =>
    match w.conns.get? c with
    | some _ => none
    | none =>
      let (w, k) := w.getOrCreate
      some { w with conns := w.conns.set c (.fetched k) }
  | .check c fails =>
    match w.conns.get? c with
    | some (.fetched k) =>
      some { w with
        conns := w.conns.set c (if w.archived || fails then .refused else .checked k) }
    | _ => none
  | .refuse c cleans =>
    match w.conns.get? c with
    | some (.checked _) =>
      some { w with conns := if cleans then w.conns.set c .refused else w.conns.remove c }
    | _ => none
  | .addPeer c peerId pubkey version remote =>
    match w.conns.get? c with
    | some (.checked k) =>
      match w.rooms.get? k with
      | none => none
      | some r =>
        if (r.find? peerId).isSome then none
        else
          match admission r peerId pubkey version remote with
          | .error _ => some { w with conns := w.conns.remove c }
          | .ok r => some { w with
              rooms := w.rooms.set k r
              conns := w.conns.set c (.admitted k peerId remote.isSome) }
    | _ => none
  | .leave c =>
    match w.conns.get? c with
    | some (.admitted k peerId remote) =>
      match w.rooms.get? k with
      | none => none
      | some r =>
        let (r, shouldAutoEnd) := departure r peerId remote
        some { w with
          rooms := w.rooms.set k r
          conns := w.conns.set c (if shouldAutoEnd then .emptied k else .leaving) }
    | _ => none
  | .archive c fails =>
    match w.conns.get? c with
    | some (.emptied k) =>
      match w.rooms.get? k with
      | none => none
      | some r =>
        if fails then
          some { w with rooms := w.rooms.set k r.clearEnded, conns := w.conns.remove c }
        else
          some { w with
            archived := true
            archivedOver := w.archivedOver || w.conns.toList.any fun x => x.2.isAdmitted
            conns := w.conns.set c .leaving }
    | _ => none
  | .cleanup c =>
    match w.conns.get? c with
    | some .refused | some .leaving =>
      let w := w.cleanupIfEmpty
      some { w with conns := w.conns.remove c }
    | _ => none

end Vingilot.Huddle
