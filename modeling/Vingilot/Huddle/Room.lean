import Mathlib.Data.List.Perm.Basic
import Mathlib.Data.List.Nodup
import Mathlib.Data.List.Sort
import Vingilot.Core

/-!
# A room of a huddle (`buzz-relay/src/audio/room.rs`)

Every guarded operation on a room is one step. The rooms of the manager's map, the handlers and
the mesh are in the modules that use this one.
-/

namespace Vingilot.Huddle

abbrev Bytes := List UInt8

structure RosterPeer where
  pubkey : String
  peerIndex : UInt8
deriving DecidableEq

structure RosterDelta where
  revision : Nat
  joined : Option RosterPeer
  left : Option RosterPeer

structure RosterSnapshot where
  revision : Nat
  peers : List RosterPeer

inductive PeerCtrl where
  | joined (pubkey : String) (peerIndex : UInt8) (peers : List RosterPeer)
  | left (pubkey : String) (peerIndex : UInt8)
  | close

structure AudioPeer where
  peerId : Uuid
  pubkey : String
  audio : List Bytes
  ctrl : List PeerCtrl
  peerIndex : UInt8

def AudioPeer.toRoster (p : AudioPeer) : RosterPeer := ⟨p.pubkey, p.peerIndex⟩

def audioChannelCapacity : Nat := 8

def ctrlChannelCapacity : Nat := 32

def maxPeersPerRoom : Nat := 25

inductive AdmissionError where
  | ended
  | full
  | versionMismatch (pinned requested : UInt8)

/-! ## The admission guard -/

/-- The last index that was given back comes first in `free`. -/
structure AdmissionGuard where
  nextFresh : UInt8
  free : List UInt8
  ended : Bool
  pinnedVersion : Option UInt8
  /-- A `u64` that wraps in the source. Here it is without a bound. -/
  rosterRevision : Nat

namespace AdmissionGuard

def new : AdmissionGuard := ⟨0, [], false, none, 0⟩

def alloc (g : AdmissionGuard) : Option (UInt8 × AdmissionGuard) :=
  match g.free with
  | idx :: rest => some (idx, { g with free := rest })
  | [] =>
    if g.nextFresh = 255 then none
    else some (g.nextFresh, { g with nextFresh := g.nextFresh + 1 })

def release (g : AdmissionGuard) (idx : UInt8) : AdmissionGuard := { g with free := idx :: g.free }

def reserve (g : AdmissionGuard) (idx : UInt8) : AdmissionGuard :=
  { g with
    free := g.free.filter fun i => i ≠ idx
    nextFresh :=
      if g.nextFresh ≤ idx then (if idx = 255 then 255 else idx + 1) else g.nextFresh }

def pin (g : AdmissionGuard) (version : UInt8) : AdmissionGuard :=
  { g with pinnedVersion := some (g.pinnedVersion.getD version) }

def mismatch (g : AdmissionGuard) (requested : UInt8) : Option AdmissionError :=
  match g.pinnedVersion with
  | some pinned => if pinned ≠ requested then some (.versionMismatch pinned requested) else none
  | none => none

end AdmissionGuard

/-! ## The room -/

/-- `deltas` is all that was sent on `roster_tx`, the newest last. -/
structure Room where
  peers : List AudioPeer
  guard : AdmissionGuard
  deltas : List RosterDelta

namespace Room

def new : Room := ⟨[], AdmissionGuard.new, []⟩

def find? (r : Room) (peerId : Uuid) : Option AudioPeer :=
  r.peers.find? fun p => p.peerId = peerId

def insert (r : Room) (g : AdmissionGuard) (peerId : Uuid) (pubkey : String) (idx : UInt8) : Room :=
  { peers := r.peers ++ [⟨peerId, pubkey, [], [], idx⟩]
    guard := { g with rosterRevision := g.rosterRevision + 1 }
    deltas := r.deltas ++ [⟨g.rosterRevision + 1, some ⟨pubkey, idx⟩, none⟩] }

def addPeer (r : Room) (peerId : Uuid) (pubkey : String) (requestedVersion : UInt8) :
    Except AdmissionError (Room × UInt8) :=
  if r.guard.ended then .error .ended
  else if maxPeersPerRoom ≤ r.peers.length then .error .full
  else
    match r.guard.mismatch requestedVersion with
    | some e => .error e
    | none =>
      match r.guard.alloc with
      | none => .error .full
      | some (idx, g) => .ok (r.insert (g.pin requestedVersion) peerId pubkey idx, idx)

def addPeerAtIndex (r : Room) (peerId : Uuid) (pubkey : String) (requestedVersion : UInt8)
    (peerIndex : UInt8) : Except AdmissionError Room :=
  if r.guard.ended then .error .ended
  else if maxPeersPerRoom ≤ r.peers.length || r.peers.any (fun p => p.peerIndex = peerIndex) then
    .error .full
  else
    match r.guard.mismatch requestedVersion with
    | some e => .error e
    | none =>
      .ok (r.insert ((r.guard.pin requestedVersion).reserve peerIndex) peerId pubkey peerIndex)

def erase (r : Room) (peer : AudioPeer) : Room :=
  let g := r.guard.release peer.peerIndex
  { peers := r.peers.filter fun p => p.peerId ≠ peer.peerId
    guard := { g with rosterRevision := g.rosterRevision + 1 }
    deltas := r.deltas ++ [⟨g.rosterRevision + 1, none, some peer.toRoster⟩] }

def removePeer (r : Room) (peerId : Uuid) : Room :=
  match r.find? peerId with
  | none => r
  | some peer => r.erase peer

def removePeerAndCheckEnded (r : Room) (peerId : Uuid) : Option (Room × UInt8 × Bool) :=
  match r.find? peerId with
  | none => none
  | some peer =>
    let r := r.erase peer
    if !r.guard.ended && r.peers.isEmpty then
      some ({ r with guard := { r.guard with ended := true } }, peer.peerIndex, true)
    else some (r, peer.peerIndex, false)

def clearEnded (r : Room) : Room := { r with guard := { r.guard with ended := false } }

def isEmpty (r : Room) : Bool := r.peers.isEmpty

/-! ## Queues -/

/-- `try_send`: a full queue drops what is sent. -/
def trySend {α : Type} (capacity : Nat) (queue : List α) (x : α) : List α :=
  if queue.length < capacity then queue ++ [x] else queue

def fanOut (r : Room) (skip : AudioPeer → Bool) (prefixed : Bytes) : Room :=
  { r with peers := r.peers.map fun p =>
      if skip p then p else { p with audio := trySend audioChannelCapacity p.audio prefixed } }

def broadcastFrame (r : Room) (senderId : Uuid) (frame : Bytes) : Room :=
  match r.find? senderId with
  | none => r
  | some sender => r.fanOut (fun p => p.peerId = senderId) (sender.peerIndex :: frame)

def deliverPrefixed (r : Room) (authorIndex : UInt8) (prefixed : Bytes) : Room :=
  r.fanOut (fun p => p.peerIndex = authorIndex) prefixed

def broadcastControl (r : Room) (msg : PeerCtrl) : Room :=
  { r with peers := r.peers.map fun p =>
      { p with ctrl := trySend ctrlChannelCapacity p.ctrl msg } }

/-- `peer_pubkeys`. -/
def roster (r : Room) : List RosterPeer := r.peers.map AudioPeer.toRoster

/-- `sort_by_key`. -/
def rosterSnapshot (r : Room) : RosterSnapshot :=
  ⟨r.guard.rosterRevision, r.roster.insertionSort fun a b => a.peerIndex ≤ b.peerIndex⟩

end Room

end Vingilot.Huddle
