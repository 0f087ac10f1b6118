import Vingilot.Huddle.Connections
import Vingilot.Lib.Machine

/-!
# Who owns a huddle on a pod (`buzz-relay/src/audio/join.rs` and `handler.rs`)

The lease of a huddle is in Redis, and its renewer is in a registry by the session alone. A local
join resolves the owner, is admitted to the room, and then takes the tokens that it watches.
-/

namespace Vingilot.Huddle

abbrev HuddleKey := Uuid × Uuid

structure HuddleLease where
  communityId : Uuid
  sessionId : Uuid
  generation : Nat
deriving DecidableEq

def HuddleLease.key (lease : HuddleLease) : HuddleKey := (lease.communityId, lease.sessionId)

/-- The cancellation tokens, by the lease they were made for. `idle` is what `attach_signals` makes
up for the loss when the runtime drains. -/
inductive Token where
  | lost (lease : HuddleLease)
  | draining (lease : HuddleLease)
  | cancel (lease : HuddleLease)
  | idle (lease : HuddleLease)
deriving DecidableEq

/-! ## The registry -/

structure HuddleOwnerEntry where
  lost : Token
  draining : Token
  cancel : Token
  generation : Nat

structure HuddleOwnerSignals where
  lost : Token
  draining : Token
deriving DecidableEq

/-- `renewers` says of each lease that had a renewer whether its loop still runs. -/
structure HuddleOwnerRegistry where
  entries : Table Uuid HuddleOwnerEntry
  isDraining : Bool
  cancelled : List Token
  renewers : Table HuddleLease Bool

namespace HuddleOwnerRegistry

def new : HuddleOwnerRegistry := ⟨∅, false, [], ∅⟩

def lostFor (o : HuddleOwnerRegistry) (sessionId : Uuid) : Option Token :=
  (o.entries.get? sessionId).map (·.lost)

def drainFor (o : HuddleOwnerRegistry) (sessionId : Uuid) : Option Token :=
  (o.entries.get? sessionId).map (·.draining)

def throwaway (o : HuddleOwnerRegistry) (lease : HuddleLease) : HuddleOwnerRegistry :=
  { o with
    cancelled := .cancel lease :: o.cancelled
    renewers := o.renewers.set lease true }

/-- `attach_signals` up to the entry, and whether there is a new one. -/
def publish (o : HuddleOwnerRegistry) (lease : HuddleLease) :
    HuddleOwnerRegistry × HuddleOwnerSignals × Bool :=
  if o.isDraining then
    let o := o.throwaway lease
    ({ o with cancelled := .draining lease :: o.cancelled }, ⟨.idle lease, .draining lease⟩, false)
  else
    match o.entries.get? lease.sessionId with
    | some existing => (o.throwaway lease, ⟨existing.lost, existing.draining⟩, false)
    | none =>
      ({ o with
        renewers := o.renewers.set lease true
        entries := o.entries.set lease.sessionId
          ⟨.lost lease, .draining lease, .cancel lease, lease.generation⟩ },
        ⟨.lost lease, .draining lease⟩, true)

/-- `remove_if` with the fence of `release` and `drain`, which cancel some of the tokens. -/
def retract (o : HuddleOwnerRegistry) (sessionId : Uuid) (generation : Nat)
    (tokens : HuddleOwnerEntry → List Token) : HuddleOwnerRegistry :=
  match o.entries.get? sessionId with
  | none => o
  | some entry =>
    if entry.generation = generation then
      { o with
        entries := o.entries.remove sessionId
        cancelled := tokens entry ++ o.cancelled }
    else o

def release (o : HuddleOwnerRegistry) (sessionId : Uuid) (generation : Nat) :
    HuddleOwnerRegistry := o.retract sessionId generation fun entry => [entry.cancel]

def drain (o : HuddleOwnerRegistry) (sessionId : Uuid) (generation : Nat) :
    HuddleOwnerRegistry :=
  o.retract sessionId generation fun entry => [entry.draining, entry.cancel]

/-- The end of `attach_signals`, after a new entry. -/
def recheck (o : HuddleOwnerRegistry) (lease : HuddleLease) : HuddleOwnerRegistry :=
  if o.isDraining then
    let o := o.drain lease.sessionId lease.generation
    { o with cancelled := .draining lease :: .cancel lease :: o.cancelled }
  else o

end HuddleOwnerRegistry

/-! ## Joins -/

inductive JoinPhase where
  /-- In `resolve_join`. -/
  | resolving (key : HuddleKey)
  | found (lease : HuddleLease)
  | resolved (lease : HuddleLease) (acquired : Bool)
  /-- The join is refused, and `cleanup_if_empty` comes next. -/
  | refused (key : HuddleKey)
  | admitted (lease : HuddleLease) (acquired : Bool)
  /-- Before the end of `attach_signals`. -/
  | published (lease : HuddleLease) (signals : HuddleOwnerSignals) (fresh : Bool)
  /-- Between `lost_for` and `drain_for`. -/
  | reusing (lease : HuddleLease) (lost : Option Token)
  | connected (lease : HuddleLease) (lost draining : Option Token)
  | leaving (lease : HuddleLease)
  /-- `cleanup_if_empty` has taken the room away, and `release` comes next. -/
  | emptied (lease : HuddleLease)
deriving DecidableEq

def ConnAction.conn : ConnAction → Nat
  | .getOrCreate c | .check c _ | .refuse c _ | .addPeer c .. | .leave c | .archive c _
  | .cleanup c => c

def JoinPhase.room (a : ConnAction) : JoinPhase → Option HuddleKey
  | .resolved lease _ =>
    match a with
    | .getOrCreate _ | .check .. | .refuse .. => some lease.key
    | .addPeer _ _ _ _ remote => if remote.isNone then some lease.key else none
    | _ => none
  | .refused key =>
    match a with
    | .cleanup _ => some key
    | _ => none
  | .connected lease _ _ =>
    match a with
    | .leave _ => some lease.key
    | _ => none
  | .leaving lease =>
    match a with
    | .archive .. | .cleanup _ => some lease.key
    | _ => none
  | _ => none

def JoinPhase.after (now : Option Phase) (evicted : Bool) : JoinPhase → Option JoinPhase
  | .resolved lease acquired =>
    match now with
    | some (.fetched _) | some (.checked _) => some (.resolved lease acquired)
    | some (.admitted ..) => some (.admitted lease acquired)
    | some _ => some (.refused lease.key)
    | none => none
  | .connected lease _ _ => some (.leaving lease)
  | .leaving lease =>
    match now with
    | some _ => some (.leaving lease)
    | none => if evicted then some (.emptied lease) else none
  | _ => none

/-! ## The pod -/

/-- `leases` is what Redis has: the generation, and whether this pod is the owner. `remotes` are the
peers that control streams have registered. -/
structure OwnerPod where
  leases : Table HuddleKey (Nat × Bool)
  generations : Table HuddleKey Nat
  owners : HuddleOwnerRegistry
  huddles : Table HuddleKey Pod
  joins : Table Nat JoinPhase
  remotes : List (HuddleKey × Uuid)

namespace OwnerPod

def init : OwnerPod := ⟨∅, ∅, .new, ∅, ∅, []⟩

def huddle (w : OwnerPod) (key : HuddleKey) : Pod := (w.huddles.get? key).getD Pod.init

/-- The script of `acquire` on a free lease. -/
def grant (w : OwnerPod) (key : HuddleKey) (mine : Bool) : OwnerPod × Nat :=
  let generation := (w.generations.get? key).getD 0 + 1
  ({ w with
    leases := w.leases.set key (generation, mine)
    generations := w.generations.set key generation }, generation)

def holds (w : OwnerPod) (lease : HuddleLease) : Bool :=
  w.leases.get? lease.key = some (lease.generation, true)

def setJoin (w : OwnerPod) (c : Nat) (ph : JoinPhase) : OwnerPod :=
  { w with joins := w.joins.set c ph }

def loseLease (w : OwnerPod) (lease : HuddleLease) : OwnerPod :=
  { w with owners := { w.owners with
      renewers := w.owners.renewers.set lease false
      cancelled := .lost lease :: w.owners.cancelled } }

end OwnerPod

inductive OwnerAction where
  | start (c : Nat) (key : HuddleKey)
  /-- `resolve_join` finds that this pod owns the huddle. -/
  | lookup (c : Nat)
  /-- `resolve_join` acquires the lease. -/
  | acquire (c : Nat)
  | ready (c : Nat)
  | giveUp (c : Nat)
  | room (a : ConnAction)
  | attach (c : Nat)
  | recheck (c : Nat)
  | lostFor (c : Nat)
  | drainFor (c : Nat)
  | release (c : Nat)
  /-- `drain_all` sets the flag, and drains one entry after the other. -/
  | startDrain
  | drain (sessionId : Uuid) (generation : Nat)
  /-- A tick of the renewer. `released` says, of a tick that fails, whether the release after it
  does not. -/
  | renew (lease : HuddleLease)
  | renewFails (lease : HuddleLease) (released : Bool)
  | stop (lease : HuddleLease) (fails : Bool)
  | expire (key : HuddleKey)
  | takeover (key : HuddleKey)
  | register (key : HuddleKey) (generation : Nat) (peerId : Uuid) (pubkey : String)
      (version : UInt8)
  | unregister (key : HuddleKey) (peerId : Uuid)

def ownerStep (w : OwnerPod) : OwnerAction → Option OwnerPod
  | .start c key =>
    if (w.joins.get? c).isSome || w.owners.isDraining then none
    else some (w.setJoin c (.resolving key))
  | .lookup c =>
    match w.joins.get? c with
    | some (.resolving key) =>
      match w.leases.get? key with
      | some (generation, true) => some (w.setJoin c (.found ⟨key.1, key.2, generation⟩))
      | _ => none
    | _ => none
  | .acquire c =>
    match w.joins.get? c with
    | some (.resolving key) =>
      match w.leases.get? key with
      | none =>
        let (w, generation) := w.grant key true
        some (w.setJoin c (.resolved ⟨key.1, key.2, generation⟩ true))
      | some _ => none
    | _ => none
  | .ready c =>
    match w.joins.get? c with
    | some (.found lease) =>
      match w.owners.lostFor lease.sessionId with
      | some _ => some (w.setJoin c (.resolved lease false))
      | none => some (w.setJoin c (.resolving lease.key))
    | _ => none
  | .giveUp c =>
    match w.joins.get? c with
    | some (.resolving _) => some { w with joins := w.joins.remove c }
    | _ => none
  | .room a =>
    match w.joins.get? a.conn with
    | none => none
    | some ph =>
      match ph.room a with
      | none => none
      | some key =>
        match connStep (w.huddle key) a with
        | none => none
        | some pod =>
          let evicted :=
            match a with
            | .cleanup _ => (w.huddle key).evicts
            | _ => false
          some { w with
            huddles := w.huddles.set key pod
            joins :=
              match ph.after (pod.conns.get? a.conn) evicted with
              | some ph => w.joins.set a.conn ph
              | none => w.joins.remove a.conn }
  | .attach c =>
    match w.joins.get? c with
    | some (.admitted lease true) =>
      let (owners, signals, fresh) := w.owners.publish lease
      some ({ w with owners := owners }.setJoin c (.published lease signals fresh))
    | _ => none
  | .recheck c =>
    match w.joins.get? c with
    | some (.published lease signals fresh) =>
      let owners := if fresh then w.owners.recheck lease else w.owners
      some ({ w with owners := owners }.setJoin c
        (.connected lease (some signals.lost) (some signals.draining)))
    | _ => none
  | .lostFor c =>
    match w.joins.get? c with
    | some (.admitted lease false) =>
      some (w.setJoin c (.reusing lease (w.owners.lostFor lease.sessionId)))
    | _ => none
  | .drainFor c =>
    match w.joins.get? c with
    | some (.reusing lease lost) =>
      some (w.setJoin c (.connected lease lost (w.owners.drainFor lease.sessionId)))
    | _ => none
  | .release c =>
    match w.joins.get? c with
    | some (.emptied lease) =>
      some { w with
        owners := w.owners.release lease.sessionId lease.generation
        joins := w.joins.remove c }
    | _ => none
  | .startDrain => some { w with owners := { w.owners with isDraining := true } }
  | .drain sessionId generation =>
    if w.owners.isDraining then
      some { w with owners := w.owners.drain sessionId generation }
    else none
  | .renew lease =>
    match w.owners.renewers.get? lease with
    | some true => if w.holds lease then some w else some (w.loseLease lease)
    | _ => none
  | .renewFails lease released =>
    match w.owners.renewers.get? lease with
    | some true =>
      let w' := w.loseLease lease
      some (if released && w.holds lease then { w' with leases := w.leases.remove lease.key }
        else w')
    | _ => none
  | .stop lease fails =>
    match w.owners.renewers.get? lease with
    | some true =>
      if w.owners.cancelled.contains (.cancel lease) then
        let w' := { w with owners := { w.owners with
          renewers := w.owners.renewers.set lease false } }
        if fails then some w'
        else if w.holds lease then some { w' with leases := w.leases.remove lease.key }
        else some (w.loseLease lease)
      else none
    | _ => none
  | .expire key => some { w with leases := w.leases.remove key }
  | .takeover key =>
    if (w.leases.get? key).isNone then some (w.grant key false).1 else none
  | .register key generation peerId pubkey version =>
    if w.owners.isDraining then none
    else
      let (pod, k) := (w.huddle key).getOrCreate
      let w := { w with huddles := w.huddles.set key pod }
      match pod.rooms.get? k with
      | none => none
      | some r =>
        if w.leases.get? key ≠ some (generation, true) then some w
        else if (r.find? peerId).isSome then none
        else
          match r.addPeer peerId pubkey version with
          | .error _ => some w
          | .ok (r, _) => some { w with
              huddles := w.huddles.set key { pod with rooms := pod.rooms.set k r }
              remotes := (key, peerId) :: w.remotes }
  | .unregister key peerId =>
    if (key, peerId) ∈ w.remotes then
      let pod := w.huddle key
      let remotes := w.remotes.erase (key, peerId)
      match pod.current with
      | none => some { w with remotes := remotes }
      | some k =>
        match pod.rooms.get? k with
        | none => none
        | some r => some { w with
            huddles := w.huddles.set key { pod with rooms := pod.rooms.set k (r.removePeer peerId) }
            remotes := remotes }
    else none

end Vingilot.Huddle
