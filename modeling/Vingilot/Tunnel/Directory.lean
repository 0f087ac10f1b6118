import Mathlib.Data.List.SplitOn
import Vingilot.Core
import Vingilot.Lib.Collections
import Vingilot.Lib.Json
import Vingilot.Lib.Chars

/-!
# The session directory of the mesh tunnel (`buzz-relay/src/tunnel/directory.rs`)

Each script is one step on Redis. A lease key expires, a generation key does not. The keys of a
session are named by its community and its id.
-/

namespace Vingilot.Tunnel

open Vingilot.Text

/-! ## Runtimes and profiles -/

structure RuntimeId where
  bytes : List UInt8
  length_eq : bytes.length = 32
deriving DecidableEq

def RuntimeId.ofByte (b : UInt8) : RuntimeId := ⟨List.replicate 32 b, List.length_replicate⟩

def hexEncode (bytes : List UInt8) : List Char :=
  bytes.flatMap fun b => [Json.hexDigit (b.toNat / 16), Json.hexDigit (b.toNat % 16)]

def hexDecode : List Char → Option (List UInt8)
  | [] => some []
  | [_] => none
  | a :: b :: rest =>
    match Json.hexValue a, Json.hexValue b, hexDecode rest with
    | some high, some low, some bytes => some (UInt8.ofNat (high * 16 + low) :: bytes)
    | _, _, _ => none

def RuntimeId.toHex (id : RuntimeId) : List Char := hexEncode id.bytes

def RuntimeId.ofBytes (bytes : List UInt8) : Option RuntimeId :=
  if h : bytes.length = 32 then some ⟨bytes, h⟩ else none

inductive Profile where
  | reliableStream
  | realtimeMedia
  | huddleControl
deriving DecidableEq

def Profile.asWireStr : Profile → List Char
  | reliableStream => "reliable-stream".toList
  | realtimeMedia => "realtime-media".toList
  | huddleControl => "huddle-control".toList

def profileFromWire (value : List Char) : Option Profile :=
  if value = "reliable-stream".toList then some .reliableStream
  else if value = "realtime-media".toList then some .realtimeMedia
  else if value = "huddle-control".toList then some .huddleControl
  else none

/-! ## Leases -/

structure SessionLease where
  communityId : CommunityId
  sessionId : Uuid
  ownerRuntimeId : RuntimeId
  generation : Nat
  profile : Profile
deriving DecidableEq

/-- `SessionKeys`. -/
abbrev Key := CommunityId × Uuid

def SessionLease.key (lease : SessionLease) : Key := (lease.communityId, lease.sessionId)

structure FencedHeader where
  sessionId : Uuid
  generation : Nat
  ownerRuntimeId : RuntimeId

def SessionLease.fencedHeader (lease : SessionLease) : FencedHeader :=
  ⟨lease.sessionId, lease.generation, lease.ownerRuntimeId⟩

inductive DirectoryError where
  | redis
  | malformedLease (key : Key) (value : List Char)
  | malformedGeneration (key : Key) (value : List Char)
  | invalidLeaseTtl

def parseLease (key : Key) (value : List Char) : Except DirectoryError SessionLease :=
  match value.splitOn '|' with
  | [owner, generation, profile] =>
    match parseU64 generation, profileFromWire profile,
        (hexDecode owner).bind RuntimeId.ofBytes with
    | some generation, some profile, some owner =>
      if generation = 0 then .error (.malformedLease key value)
      else .ok ⟨key.1, key.2, owner, generation, profile⟩
    | _, _, _ => .error (.malformedLease key value)
  | _ => .error (.malformedLease key value)

def parseOptionalLease (key : Key) (value : List Char) :
    Except DirectoryError (Option SessionLease) :=
  if value.isEmpty then .ok none else (parseLease key value).map some

def parseOptionalGeneration (key : Key) (value : List Char) : Except DirectoryError (Option Nat) :=
  if value.isEmpty then .ok none
  else
    match parseU64 value with
    | none => .error (.malformedGeneration key value)
    | some generation =>
      if generation = 0 then .error (.malformedGeneration key value) else .ok (some generation)

/-- `ttl_ms`, of a duration in milliseconds. -/
def ttlMs (ttl : Nat) : Except DirectoryError Nat :=
  if 0 < ttl ∧ ttl < 2 ^ 63 then .ok ttl else .error .invalidLeaseTtl

/-! ## The scripts -/

/-- `tostring` of a whole number in Lua, which is `%.14g`: the digits up to fourteen of them, and
an exponent after that. -/
structure Lua where
  tostring : Nat → List Char
  small : ∀ n, n < 10 ^ 14 → tostring n = Nat.toDigits 10 n
  large : ∀ n, 10 ^ 14 ≤ n → 'e' ∈ tostring n ∧ '|' ∉ tostring n

structure Redis where
  leases : Table Key (List Char × Nat)
  generations : Table Key Nat
  now : Nat

namespace Redis

/-- `GET` of a lease key: the value with the time it expires at. -/
def getLease (r : Redis) (k : Key) : Option (List Char) :=
  (r.leases.get? k).bind fun x => if r.now < x.2 then some x.1 else none

/-- `GET` of a generation key, or the empty text. -/
def getGeneration (r : Redis) (k : Key) : List Char :=
  ((r.generations.get? k).map (Nat.toDigits 10)).getD []

end Redis

inductive Status where
  | acquired
  | existing
  | renewed
  | missing
  | lost
  | released
deriving DecidableEq

/-- `INCR` fails past the largest number of 64 bits, and then nothing is written. -/
def acquireScript (lua : Lua) (k : Key) (owner profile : List Char) (ttl : Nat) (r : Redis) :
    Option (Redis × Status × List Char) :=
  match r.getLease k with
  | some current => some (r, .existing, current)
  | none =>
    let generation := (r.generations.get? k).getD 0 + 1
    if 2 ^ 63 ≤ generation then none
    else
      let value := owner ++ '|' :: (lua.tostring generation ++ '|' :: profile)
      some ({ r with
        generations := r.generations.set k generation
        leases := r.leases.set k (value, r.now + ttl) }, .acquired, value)

/-- `string.match(current, '^([^|]+)|([^|]+)|([^|]+)$')`, and whether it is the caller's. -/
def isOwn (current owner generation : List Char) : Bool :=
  match current.splitOn '|' with
  | [currentOwner, currentGeneration, currentProfile] =>
    !currentOwner.isEmpty && !currentGeneration.isEmpty && !currentProfile.isEmpty &&
      currentOwner = owner && currentGeneration = generation
  | _ => false

def renewScript (k : Key) (owner generation : List Char) (ttl : Nat) (r : Redis) :
    Redis × Status × List Char × List Char :=
  match r.getLease k with
  | none => (r, .missing, [], r.getGeneration k)
  | some current =>
    if isOwn current owner generation then
      ({ r with leases := r.leases.set k (current, r.now + ttl) }, .renewed, current,
        r.getGeneration k)
    else (r, .lost, current, r.getGeneration k)

def releaseScript (k : Key) (owner generation : List Char) (r : Redis) :
    Redis × Status × List Char × List Char :=
  match r.getLease k with
  | none => (r, .missing, [], r.getGeneration k)
  | some current =>
    if isOwn current owner generation then
      ({ r with leases := r.leases.remove k }, .released, current, r.getGeneration k)
    else (r, .lost, current, r.getGeneration k)

def validateScript (k : Key) (r : Redis) : List Char × List Char :=
  ((r.getLease k).getD [], r.getGeneration k)

/-! ## The directory -/

inductive AcquireResult where
  | acquired (lease : SessionLease)
  | existing (lease : SessionLease)

/-- `acquire`, and `takeover`, which is the same. -/
def acquire (lua : Lua) (k : Key) (ownerRuntimeId : RuntimeId) (profile : Profile) (ttl : Nat)
    (r : Redis) : Redis × Except DirectoryError AcquireResult :=
  match ttlMs ttl with
  | .error e => (r, .error e)
  | .ok ttl =>
    match acquireScript lua k ownerRuntimeId.toHex profile.asWireStr ttl r with
    | none => (r, .error .redis)
    | some (r, status, value) =>
      (r, (parseLease k value).map fun lease =>
        if status = .acquired then .acquired lease else .existing lease)

inductive RenewResult where
  | renewed (lease : Option SessionLease)
  | lost (current : Option SessionLease) (knownGeneration : Option Nat)

def renew (lease : SessionLease) (ttl : Nat) (r : Redis) :
    Redis × Except DirectoryError RenewResult :=
  match ttlMs ttl with
  | .error e => (r, .error e)
  | .ok ttl =>
    let (r, status, value, known) :=
      renewScript lease.key lease.ownerRuntimeId.toHex (Nat.toDigits 10 lease.generation) ttl r
    (r, do
      let current ← parseOptionalLease lease.key value
      if status = .renewed then .ok (.renewed current)
      else .ok (.lost current (← parseOptionalGeneration lease.key known)))

inductive ReleaseResult where
  | released (lease : Option SessionLease)
  | notOwner (current : Option SessionLease) (knownGeneration : Option Nat)

def release (lease : SessionLease) (r : Redis) : Redis × Except DirectoryError ReleaseResult :=
  let (r, status, value, known) :=
    releaseScript lease.key lease.ownerRuntimeId.toHex (Nat.toDigits 10 lease.generation) r
  (r, do
    let current ← parseOptionalLease lease.key value
    if status = .released then .ok (.released current)
    else .ok (.notOwner current (← parseOptionalGeneration lease.key known)))

def lookup (k : Key) (r : Redis) : Except DirectoryError (Option SessionLease) :=
  match r.getLease k with
  | none => .ok none
  | some value => (parseLease k value).map some

inductive MeshError where
  | transport (e : DirectoryError)
  | staleGeneration (sessionId : Uuid) (frameGeneration knownGeneration : Nat)
  | noActiveLease (sessionId : Uuid) (frameGeneration knownGeneration : Nat)
      (frameOwnerRuntimeId : RuntimeId)
  | futureGeneration (sessionId : Uuid) (frameGeneration knownGeneration : Nat)
  | ownerMismatch (sessionId : Uuid) (generation : Nat)
      (frameOwnerRuntimeId currentOwnerRuntimeId : RuntimeId)

def validateFencedHeader (communityId : CommunityId) (fenced : FencedHeader) (r : Redis) :
    Except MeshError Unit :=
  let k : Key := (communityId, fenced.sessionId)
  let (leaseValue, knownGeneration) := validateScript k r
  match parseOptionalGeneration k knownGeneration, parseOptionalLease k leaseValue with
  | .error e, _ => .error (.transport e)
  | .ok _, .error e => .error (.transport e)
  | .ok knownFromCounter, .ok current =>
    let knownFromCounter := knownFromCounter.getD 0
    let known := max ((current.map (·.generation)).getD knownFromCounter) knownFromCounter
    if 0 < known ∧ fenced.generation < known then
      .error (.staleGeneration fenced.sessionId fenced.generation known)
    else
      match current with
      | none =>
        .error (.noActiveLease fenced.sessionId fenced.generation known fenced.ownerRuntimeId)
      | some current =>
        if fenced.generation ≠ current.generation then
          .error (.futureGeneration fenced.sessionId fenced.generation current.generation)
        else if fenced.ownerRuntimeId ≠ current.ownerRuntimeId then
          .error (.ownerMismatch fenced.sessionId fenced.generation fenced.ownerRuntimeId
            current.ownerRuntimeId)
        else .ok ()

/-! ## Runs -/

/-- `issued`, `handedOut` and `held` are kept for the statements only: the leases that were written,
those that a caller was told of, and those that a caller may still count on, with the time until
which it may. -/
structure World where
  redis : Redis
  issued : List SessionLease
  handedOut : List SessionLease
  held : List (SessionLease × Nat)

def World.init : World := ⟨⟨∅, ∅, 0⟩, [], [], []⟩

inductive Action where
  | tick (ms : Nat)
  | acquire (k : Key) (ownerRuntimeId : RuntimeId) (profile : Profile) (ttl : Nat) (finishes : Bool)
  | renew (lease : SessionLease) (ttl : Nat) (finishes : Bool)
  | release (lease : SessionLease)

def written (before after : Redis) (k : Key) (ownerRuntimeId : RuntimeId) (profile : Profile) :
    List SessionLease :=
  if before.generations.get? k = after.generations.get? k then []
  else [⟨k.1, k.2, ownerRuntimeId, (after.generations.get? k).getD 0, profile⟩]

def told (result : Except DirectoryError AcquireResult) (finishes : Bool) : List SessionLease :=
  match result, finishes with
  | .ok (.acquired lease), true => [lease]
  | _, _ => []

def extended (result : Except DirectoryError RenewResult) (finishes : Bool) : List SessionLease :=
  match result, finishes with
  | .ok (.renewed (some lease)), true => [lease]
  | _, _ => []

/-- Who renews or releases a lease no longer counts on what it was told of it before. -/
def letGo (lease : SessionLease) (held : List (SessionLease × Nat)) : List (SessionLease × Nat) :=
  held.filter fun x => !(x.1.key = lease.key && x.1.ownerRuntimeId = lease.ownerRuntimeId &&
    x.1.generation = lease.generation)

def step (lua : Lua) (w : World) : Action → Option World
  | .tick ms => some { w with redis := { w.redis with now := w.redis.now + ms } }
  | .acquire k owner profile ttl finishes =>
    let (r, result) := acquire lua k owner profile ttl w.redis
    some {
      redis := r
      issued := w.issued ++ written w.redis r k owner profile
      handedOut := w.handedOut ++ told result finishes
      held := w.held ++ (told result finishes).map fun lease => (lease, w.redis.now + ttl) }
  | .renew lease ttl finishes =>
    let (r, result) := renew lease ttl w.redis
    some { w with
      redis := r
      held := letGo lease w.held ++
        (extended result finishes).map fun lease => (lease, w.redis.now + ttl) }
  | .release lease =>
    some { w with
      redis := (release lease w.redis).1
      held := letGo lease w.held }

end Vingilot.Tunnel
