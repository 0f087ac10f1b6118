import Mathlib.Data.Char
import Mathlib.Data.List.Lex
import Mathlib.Data.List.Sort
import Vingilot.Tunnel.Directory

/-!
# The membership table and its gossip (`buzz-relay-mesh/src/membership.rs` and `gossip.rs`)

A runtime knows its own record and the newest one that it has heard of each peer. Ready records from
the registry come in as version 1. Gossip frames may be lost, and they may come late and twice.
-/

namespace Vingilot.RelayMesh

open Tunnel (RuntimeId)

/-! ## Records and messages -/

def u64Max : Nat := 18446744073709551615

/-- The load is kept as the bits of the `f32`. Nothing is computed with it here. -/
structure GossipRecord where
  runtimeId : RuntimeId
  endpointAddrs : List String
  protoVersion : UInt16
  load : BitVec 32
  draining : Bool
  capabilities : List String
  version : Nat
  heartbeatMillis : Nat
deriving DecidableEq

namespace GossipRecord

def new (runtimeId : RuntimeId) (endpointAddrs : List String) (protoVersion : UInt16)
    (nowMillis : Nat) : GossipRecord :=
  ⟨runtimeId, endpointAddrs, protoVersion, 0, false, [], 1, nowMillis⟩

def contents (r : GossipRecord) : GossipRecord := { r with heartbeatMillis := 0 }

end GossipRecord

structure GossipDigestEntry where
  runtimeId : RuntimeId
  version : Nat

inductive GossipMessage where
  | digest (entries : List GossipDigestEntry)
  | delta (records : List GossipRecord)

structure ReadyRecord where
  runtimeId : RuntimeId
  runtimePubkey : List Char
  relayPubkey : String
  relaySig : String
  endpointAddrs : List String
  protoVersion : UInt16
  capabilities : List String

def attestationPreimage (runtimeId : RuntimeId) (relayPubkey : String) : List Char :=
  "buzz-relay-mesh-ready-v1\nruntime_pubkey=".toList ++ runtimeId.toHex ++
    "\nrelay_pubkey=".toList ++ relayPubkey.toList

section

variable (verifySchnorr : String → String → List Char → Bool)

def ReadyRecord.verifyAttestation (r : ReadyRecord) : Bool :=
  r.runtimePubkey = r.runtimeId.toHex &&
    verifySchnorr r.relayPubkey r.relaySig (attestationPreimage r.runtimeId r.relayPubkey)

end

/-! ## The table -/

structure MeshMembership where
  localRuntimeId : RuntimeId
  localRecord : GossipRecord
  peers : Table RuntimeId GossipRecord
  expectedRelayPubkey : Option String

/-- What a caller of `update_local` does to the record. The heartbeat and the drain, which are all
the callers, leave the id and the version alone. -/
structure LocalUpdate where
  update : GossipRecord → GossipRecord
  runtimeId_eq : ∀ r, (update r).runtimeId = r.runtimeId
  version_eq : ∀ r, (update r).version = r.version

namespace LocalUpdate

def heartbeat : LocalUpdate := ⟨id, fun _ => rfl, fun _ => rfl⟩

def beginDrain : LocalUpdate := ⟨fun r => { r with draining := true }, fun _ => rfl, fun _ => rfl⟩

end LocalUpdate

namespace MeshMembership

def new (localRecord : GossipRecord) : MeshMembership :=
  ⟨localRecord.runtimeId, localRecord, ∅, none⟩

def withExpectedRelayPubkey (m : MeshMembership) (pubkeyHex : String) : MeshMembership :=
  { m with expectedRelayPubkey := some pubkeyHex }

def applyGossipRecord (m : MeshMembership) (record : GossipRecord) : MeshMembership × Bool :=
  if record.runtimeId = m.localRuntimeId then (m, false)
  else
    match m.peers.get? record.runtimeId with
    | some peer =>
      if record.version ≤ peer.version then (m, false)
      else ({ m with peers := m.peers.set record.runtimeId record }, true)
    | none => ({ m with peers := m.peers.set record.runtimeId record }, true)

def seed (ready : ReadyRecord) (nowMillis : Nat) : GossipRecord :=
  { GossipRecord.new ready.runtimeId ready.endpointAddrs ready.protoVersion nowMillis with
    capabilities := ready.capabilities }

/-- One turn of `apply_ready_records`. -/
def applyReadyRecord (verifySchnorr : String → String → List Char → Bool) (m : MeshMembership)
    (ready : ReadyRecord) (nowMillis : Nat) : MeshMembership :=
  if ready.runtimeId = m.localRuntimeId then m
  else if m.expectedRelayPubkey ≠ some ready.relayPubkey then m
  else if !ready.verifyAttestation verifySchnorr then m
  else (m.applyGossipRecord (seed ready nowMillis)).1

def updateLocal (m : MeshMembership) (u : LocalUpdate) (nowMillis : Nat) : MeshMembership :=
  let r := u.update m.localRecord
  { m with localRecord :=
      { r with
        version := min (r.version + 1) u64Max
        heartbeatMillis := nowMillis } }

def records (m : MeshMembership) : List GossipRecord :=
  m.peers.toList.map (·.2) ++ [m.localRecord]

def digest (m : MeshMembership) : List GossipDigestEntry :=
  (m.records.map fun r => (⟨r.runtimeId, r.version⟩ : GossipDigestEntry)).insertionSort
    fun x y => x.runtimeId.toHex ≤ y.runtimeId.toHex

def deltaFor (m : MeshMembership) (digest : List GossipDigestEntry) : List GossipRecord :=
  let remote : Table RuntimeId Nat := Table.setAll ∅ (digest.map fun e => (e.runtimeId, e.version))
  (m.records.filter fun r => (remote.get? r.runtimeId).all fun v => v < r.version).insertionSort
    fun x y => x.runtimeId.toHex ≤ y.runtimeId.toHex

end MeshMembership

/-! ## Many runtimes -/

structure GossipFrame where
  sender : RuntimeId
  receiver : RuntimeId
  message : GossipMessage

/-- `published` has all that was ever in the registry, and `sent` all frames that were ever sent: one
that is never received is lost, and one may be received again. -/
structure Gossip where
  members : Table RuntimeId MeshMembership
  published : List ReadyRecord
  sent : List GossipFrame

namespace Gossip

def init : Gossip := ⟨∅, [], []⟩

def setMember (w : Gossip) (r : RuntimeId) (m : MeshMembership) : Gossip :=
  { w with members := w.members.set r m }

def send (w : Gossip) (sender receiver : RuntimeId) (message : GossipMessage) : Gossip :=
  { w with sent := w.sent ++ [⟨sender, receiver, message⟩] }

end Gossip

inductive GossipAction where
  /-- `boot_mesh`: the ready record has what the local record starts with. -/
  | boot (runtimeId : RuntimeId) (relayPubkey relaySig : String) (addrs : List String)
    (protoVersion : UInt16) (capabilities : List String) (nowMillis : Nat)
  | seed (r : RuntimeId) (i nowMillis : Nat)
  | update (r : RuntimeId) (u : LocalUpdate) (nowMillis : Nat)
  | sendDigest (sender receiver : RuntimeId)
  | answer (i : Nat)
  | apply (i j : Nat)

def gossipStep (verifySchnorr : String → String → List Char → Bool) (w : Gossip) :
    GossipAction → Option Gossip
  | .boot runtimeId relayPubkey relaySig addrs protoVersion capabilities nowMillis =>
    if (w.members.get? runtimeId).isSome then none
    else
      let localRecord :=
        { GossipRecord.new runtimeId addrs protoVersion nowMillis with capabilities }
      let ready : ReadyRecord :=
        ⟨runtimeId, runtimeId.toHex, relayPubkey, relaySig, addrs, protoVersion, capabilities⟩
      let m := (MeshMembership.new localRecord).withExpectedRelayPubkey relayPubkey
      some { w.setMember runtimeId m with published := w.published ++ [ready] }
  | .seed r i nowMillis =>
    match w.members.get? r, w.published[i]? with
    | some m, some ready =>
      some (w.setMember r (m.applyReadyRecord verifySchnorr ready nowMillis))
    | _, _ => none
  | .update r u nowMillis =>
    match w.members.get? r with
    | some m => some (w.setMember r (m.updateLocal u nowMillis))
    | none => none
  | .sendDigest sender receiver =>
    match w.members.get? sender with
    | some m => some (w.send sender receiver (.digest m.digest))
    | none => none
  | .answer i =>
    match w.sent[i]? with
    | some ⟨sender, receiver, .digest entries⟩ =>
      match w.members.get? receiver with
      | some m => some (w.send receiver sender (.delta (m.deltaFor entries)))
      | none => none
    | _ => none
  | .apply i j =>
    match w.sent[i]? with
    | some ⟨_, receiver, .delta records⟩ =>
      match w.members.get? receiver, records[j]? with
      | some m, some record => some (w.setMember receiver (m.applyGossipRecord record).1)
      | _, _ => none
    | _ => none

end Vingilot.RelayMesh
