import Vingilot.Huddle.Client
import Vingilot.Lib.Machine

/-!
# The roster on another pod (`serve_control_loop` and `read_owner_control` in `audio/join.rs`)

The owner sends snapshots and deltas of its roster over one ordered stream. The deltas come from a
broadcast queue that may run over. The other pod forwards to its client what follows on what it had.
-/

namespace Vingilot.Huddle

/-- What the owner sends, of `HuddleControlMsg`. -/
inductive OwnerMsg where
  | peerRegistered (pubkey : String) (peerIndex : UInt8) (roster : RosterSnapshot)
  | rosterSnapshot (snapshot : RosterSnapshot)
  | rosterDelta (delta : RosterDelta)

/-! ## The reader -/

inductive Forwarded where
  | roster (revision : Nat) (peers : List RosterPeer)
  | joined (revision : Nat) (peer : RosterPeer)
  | left (revision : Nat) (peer : RosterPeer)

def Forwarded.revision : Forwarded → Nat
  | roster revision _ | joined revision _ | left revision _ => revision

def Forwarded.isDelta : Forwarded → Bool
  | roster .. => false
  | _ => true

inductive ReadOutcome where
  | forward (msg : Forwarded)
  /-- A delta without a peer only counts. -/
  | count (revision : Nat)
  | ignore
  | resync

/-- One frame in `read_owner_control`. Where `wrapping_add` takes the revision after `u64::MAX` to 0,
the revisions here go on. -/
def readOwnerControl (revision : Nat) : OwnerMsg → ReadOutcome
  | .rosterSnapshot s => .forward (.roster s.revision s.peers)
  | .rosterDelta d =>
    if d.revision = revision + 1 then
      match d.joined, d.left with
      | some peer, _ => .forward (.joined d.revision peer)
      | none, some peer => .forward (.left d.revision peer)
      | none, none => .count d.revision
    else if d.revision ≤ revision then .ignore
    else .resync
  | .peerRegistered .. => .ignore

def PeerMap.onForwarded (m : PeerMap) : Forwarded → PeerMap
  | .roster _ peers => .roster peers
  | .joined _ peer => m.joined [peer]
  | .left _ peer => m.left peer.peerIndex

/-! ## The owner and the stream -/

/-- Where `serve_control_loop` is. The number is how many deltas its receiver is past. -/
inductive Serving where
  | idle
  | subscribed (position : Nat)
  | admitted (position : Nat) (pubkey : String) (peerIndex : UInt8)
  | serving (position : Nat)
  | lagged (position : Nat)
deriving DecidableEq

structure Ingress where
  revision : Nat
  map : PeerMap

/-- `resyncs` are the requests on their way. `history` has the owner's roster at each revision, and
`forwarded` each message for the client after the revision before it. Both are kept for the
statements only. -/
structure Mirror where
  room : Room
  serving : Serving
  toClient : List OwnerMsg
  resyncs : Nat
  client : Option Ingress
  history : List (List RosterPeer)
  forwarded : List (Nat × Forwarded)

namespace Mirror

def init : Mirror := ⟨.new, .idle, [], 0, none, [[]], []⟩

def setRoom (w : Mirror) (r : Room) : Mirror :=
  { w with room := r, history := w.history ++ [r.roster] }

def send (w : Mirror) (msg : OwnerMsg) (position : Nat) : Mirror :=
  { w with toClient := w.toClient ++ [msg], serving := .serving position }

end Mirror

inductive MirrorAction where
  | join (peerId : Uuid) (pubkey : String) (version : UInt8)
  | joinAt (peerId : Uuid) (pubkey : String) (version peerIndex : UInt8)
  | leave (peerId : Uuid) (checkEnded : Bool)
  | clearEnded
  /-- `RegisterPeer`: the loop subscribes, admits the client, and replies. -/
  | subscribe
  | addPeer (peerId : Uuid) (pubkey : String) (version : UInt8)
  | reply
  | delta
  | lag (missed : Nat)
  | snapshot
  | answer
  | read

def mirrorStep (w : Mirror) : MirrorAction → Option Mirror
  | .join peerId pubkey version =>
    if (w.room.find? peerId).isSome then none
    else
      match w.room.addPeer peerId pubkey version with
      | .error _ => some w
      | .ok (r, _) => some (w.setRoom r)
  | .joinAt peerId pubkey version peerIndex =>
    if (w.room.find? peerId).isSome then none
    else
      match w.room.addPeerAtIndex peerId pubkey version peerIndex with
      | .error _ => some w
      | .ok r => some (w.setRoom r)
  | .leave peerId checkEnded =>
    if (w.room.find? peerId).isNone then none
    else some (w.setRoom (departure w.room peerId (!checkEnded)).1)
  | .clearEnded => some { w with room := w.room.clearEnded }
  | .subscribe =>
    match w.serving with
    | .idle => some { w with serving := .subscribed w.room.deltas.length }
    | _ => none
  | .addPeer peerId pubkey version =>
    match w.serving with
    | .subscribed position =>
      if (w.room.find? peerId).isSome then none
      else
        match w.room.addPeer peerId pubkey version with
        | .error _ => some { w with serving := .idle }
        | .ok (r, idx) => some { w.setRoom r with serving := .admitted position pubkey idx }
    | _ => none
  | .reply =>
    match w.serving with
    | .admitted position pubkey peerIndex =>
      some (w.send (.peerRegistered pubkey peerIndex w.room.rosterSnapshot) position)
    | _ => none
  | .delta =>
    match w.serving with
    | .serving position =>
      match w.room.deltas[position]? with
      | none => none
      | some d => some (w.send (.rosterDelta d) (position + 1))
    | _ => none
  | .lag missed =>
    match w.serving with
    | .serving position =>
      if position + missed ≤ w.room.deltas.length then
        some { w with serving := .lagged (position + missed) }
      else none
    | _ => none
  | .snapshot =>
    match w.serving with
    | .lagged position => some (w.send (.rosterSnapshot w.room.rosterSnapshot) position)
    | _ => none
  | .answer =>
    match w.serving with
    | .serving position =>
      if w.resyncs = 0 then none
      else
        some { w.send (.rosterSnapshot w.room.rosterSnapshot) position with
          resyncs := w.resyncs - 1 }
    | _ => none
  | .read =>
    match w.toClient, w.client with
    | .peerRegistered _ _ roster :: rest, none =>
      some { w with
        toClient := rest
        client := some ⟨roster.revision, .roster roster.peers⟩ }
    | msg :: rest, some c =>
      match readOwnerControl c.revision msg with
      | .forward f =>
        some { w with
          toClient := rest
          client := some ⟨f.revision, c.map.onForwarded f⟩
          forwarded := w.forwarded ++ [(c.revision, f)] }
      | .count revision =>
        some { w with
          toClient := rest
          client := some { c with revision := revision } }
      | .ignore => some { w with toClient := rest }
      | .resync => some { w with toClient := rest, resyncs := w.resyncs + 1 }
    | _, _ => none

end Vingilot.Huddle
