import Vingilot.Huddle.Connections
import Vingilot.Tunnel.Directory

/-!
# A huddle over several pods (`buzz-relay/src/audio/mesh.rs` and `join.rs`)

One pod owns the huddle. The other pods register their clients in the owner's room, send it what
the clients say, and deliver what its sinks send back.
-/

namespace Vingilot.Huddle

open Tunnel (RuntimeId FencedHeader)

/-! ## Datagrams -/

structure MeshDatagram where
  fenced : FencedHeader
  seq : UInt64
  payload : Bytes

def mediaDatagram (peerIndex : UInt8) (fenced : FencedHeader) (seq : UInt64)
    (clientFrame : Bytes) : MeshDatagram := ⟨fenced, seq, peerIndex :: clientFrame⟩

inductive FenceVerdict where
  | accept (advanced : Bool)
  | rejectStale (known : Nat)

abbrev GenerationFloor := Table Uuid Nat

def GenerationFloor.check (seen : GenerationFloor) (sessionId : Uuid) (generation : Nat) :
    GenerationFloor × FenceVerdict :=
  match seen.get? sessionId with
  | some known =>
    if generation < known then (seen, .rejectStale known)
    else (if known < generation then seen.set sessionId generation else seen,
      .accept (known < generation))
  | none => (seen.set sessionId generation, .accept false)

/-- What `spawn_remote_peer_sink` drains a peer's audio queue to. -/
structure Sink where
  dest : RuntimeId
  fenced : FencedHeader
  seq : UInt64

/-- `registered` is the id of the client in the owner's room, which the owner keeps for the stream. -/
structure RemoteHuddleSession where
  peerIndex : UInt8
  fenced : FencedHeader
  owner : RuntimeId
  seq : UInt64
  registered : Uuid

/-! ## The pods -/

abbrev Participant := RuntimeId × Uuid

/-- The room of the huddle on each pod, the sinks and the sessions by the peers they are for, and
the datagrams on their way. `foreign` names the pods where another community has a room under the
id of the huddle's channel. `sent`, `heard` and `lost` are kept for the statements only: the frames
that participants have sent, those that sockets took from audio queues, and whether anything was
dropped by the network or by a full queue. -/
structure Mesh where
  fenced : FencedHeader
  rooms : Table RuntimeId Room
  foreign : List RuntimeId
  floors : Table RuntimeId GenerationFloor
  sinks : Table Uuid Sink
  sessions : Table Participant RemoteHuddleSession
  network : List (RuntimeId × MeshDatagram)
  sent : List (Participant × Bytes)
  heard : Table Participant (List Bytes)
  lost : Bool

namespace Mesh

def init (fenced : FencedHeader) : Mesh := ⟨fenced, ∅, [], ∅, ∅, ∅, [], [], ∅, false⟩

def owner (w : Mesh) : RuntimeId := w.fenced.ownerRuntimeId

def room (w : Mesh) (pod : RuntimeId) : Room := (w.rooms.get? pod).getD Room.new

def setRoom (w : Mesh) (pod : RuntimeId) (r : Room) : Mesh :=
  { w with rooms := w.rooms.set pod r }

/-- `cleanup_if_empty`. -/
def cleanup (w : Mesh) (pod : RuntimeId) : Mesh :=
  if (w.room pod).isEmpty then { w with rooms := w.rooms.remove pod } else w

end Mesh

/-! ## Joins and leaves -/

inductive Membership where
  /-- `registeredId` is the id that the owner gives to a client of another pod. -/
  | join (pod : RuntimeId) (peerId registeredId : Uuid) (pubkey : String) (version : UInt8)
  | leave (pod : RuntimeId) (peerId : Uuid) (archiveFails : Bool)

/-- `register_remote_peer`. -/
def registerRemotePeer (w : Mesh) (pod : RuntimeId) (registeredId : Uuid) (pubkey : String)
    (version : UInt8) : Option (Mesh × UInt8) :=
  match (w.room w.owner).addPeer registeredId pubkey version with
  | .error _ => none
  | .ok (r, idx) =>
    some ({ w.setRoom w.owner r with sinks := w.sinks.set registeredId ⟨pod, w.fenced, 0⟩ }, idx)

/-- `UnregisterPeer`: the peer's queue is gone, and its sink with it. -/
def unregisterPeer (w : Mesh) (registeredId : Uuid) : Mesh :=
  { w.setRoom w.owner ((w.room w.owner).removePeer registeredId) with
    sinks := w.sinks.remove registeredId }

def membershipStep (w : Mesh) : Membership → Option Mesh
  | .join pod peerId registeredId pubkey version =>
    if ((w.room pod).find? peerId).isSome || ((w.room w.owner).find? registeredId).isSome then none
    else if pod = w.owner then
      match (w.room pod).addPeer peerId pubkey version with
      | .error _ => some w
      | .ok (r, _) => some (w.setRoom pod r)
    else
      match registerRemotePeer w pod registeredId pubkey version with
      | none => some w
      | some (w', idx) =>
        match (w'.room pod).addPeerAtIndex peerId pubkey version idx with
        | .error _ => some (unregisterPeer w' registeredId)
        | .ok r => some { w'.setRoom pod r with
            sessions := w.sessions.set (pod, peerId) ⟨idx, w.fenced, w.owner, 0, registeredId⟩ }
  | .leave pod peerId archiveFails =>
    if ((w.room pod).find? peerId).isNone then none
    else
      match w.sessions.get? (pod, peerId) with
      | some session =>
        let w' := (w.setRoom pod ((w.room pod).removePeer peerId)).cleanup pod
        some { unregisterPeer w' session.registered with
          sessions := w.sessions.remove (pod, peerId) }
      | none =>
        if (w.sinks.get? peerId).isSome then none
        else
          let (r, shouldAutoEnd) := departure (w.room pod) peerId false
          if shouldAutoEnd && archiveFails then some (w.setRoom pod r.clearEnded)
          else some ((w.setRoom pod r).cleanup pod)

/-! ## Media -/

inductive Traffic where
  | send (pod : RuntimeId) (peerId : Uuid) (frame : Bytes)
  | pump (registeredId : Uuid)
  | arrive (n : Nat)
  | lose (n : Nat)
  | hear (pod : RuntimeId) (peerId : Uuid)
  /-- The room of another community under the same id comes or goes. -/
  | foreign (pod : RuntimeId) (present : Bool)

def Room.overflows (r : Room) (skip : AudioPeer → Bool) : Bool :=
  r.peers.any fun p => !skip p && audioChannelCapacity ≤ p.audio.length

/-- `get_unambiguous_by_channel`: a datagram carries no community. -/
def Mesh.unambiguousRoom (w : Mesh) (pod : RuntimeId) : Option Room :=
  if pod ∈ w.foreign then none else w.rooms.get? pod

/-- `on_media_datagram` on the pod `pod`. -/
def onMediaDatagram (w : Mesh) (pod : RuntimeId) (dgram : MeshDatagram) : Mesh :=
  let (seen, verdict) :=
    ((w.floors.get? pod).getD ∅).check dgram.fenced.sessionId dgram.fenced.generation
  let w := { w with floors := w.floors.set pod seen }
  match verdict with
  | .rejectStale _ => w
  | .accept _ =>
    match w.unambiguousRoom pod, dgram.payload with
    | some r, authorIndex :: rest =>
      { w.setRoom pod (r.deliverPrefixed authorIndex (authorIndex :: rest)) with
        lost := w.lost || r.overflows fun p => p.peerIndex = authorIndex }
    | _, _ => w

def Room.take (r : Room) (peerId : Uuid) : Room :=
  { r with peers := r.peers.map fun p =>
      if p.peerId = peerId then { p with audio := p.audio.tail } else p }

def trafficStep (w : Mesh) : Traffic → Option Mesh
  | .send pod peerId frame =>
    if ((w.room pod).find? peerId).isNone || (pod = w.owner && (w.sinks.get? peerId).isSome) then
      none
    else
      let sent := w.sent ++ [((pod, peerId), frame)]
      match w.sessions.get? (pod, peerId) with
      | some session =>
        some { w with
          sent := sent
          network := w.network ++
            [(session.owner, mediaDatagram session.peerIndex session.fenced session.seq frame)]
          sessions := w.sessions.set (pod, peerId) { session with seq := session.seq + 1 } }
      | none =>
        some { w.setRoom pod ((w.room pod).broadcastFrame peerId frame) with
          sent := sent
          lost := w.lost || (w.room pod).overflows fun p => p.peerId = peerId }
  | .pump registeredId =>
    match w.sinks.get? registeredId, (w.room w.owner).find? registeredId with
    | some sink, some p =>
      match p.audio with
      | [] => none
      | frame :: _ =>
        some { w.setRoom w.owner ((w.room w.owner).take registeredId) with
          network := w.network ++ [(sink.dest, ⟨sink.fenced, sink.seq, frame⟩)]
          sinks := w.sinks.set registeredId { sink with seq := sink.seq + 1 } }
    | _, _ => none
  | .arrive n =>
    match w.network[n]? with
    | none => none
    | some (pod, dgram) =>
      some (onMediaDatagram { w with network := w.network.eraseIdx n } pod dgram)
  | .lose n =>
    if n < w.network.length then
      some { w with network := w.network.eraseIdx n, lost := true }
    else none
  | .hear pod peerId =>
    if pod = w.owner && (w.sinks.get? peerId).isSome then none
    else
      match (w.room pod).find? peerId with
      | none => none
      | some p =>
        match p.audio with
        | [] => none
        | frame :: _ =>
          some { w.setRoom pod ((w.room pod).take peerId) with
            heard := w.heard.set (pod, peerId)
              ((w.heard.get? (pod, peerId)).getD [] ++ [frame]) }
  | .foreign pod present =>
    some { w with
      foreign := if present then pod :: w.foreign else w.foreign.filter fun q => q ≠ pod }

end Vingilot.Huddle
