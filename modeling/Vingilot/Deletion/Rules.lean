import Vingilot.Deletion.Store

/-!
# The checks of the write fence and of the deletion store

The functions that the fence triggers run, and the validation of manifests and key chunks.
-/

namespace Vingilot.Deletion

open Transactions

/-! ## The variables of a transaction -/

structure RowChange where
  key : RowKey
  old : Option TenantRow
  new : Option TenantRow
deriving DecidableEq

structure Vars where
  readCommitted : Bool
  /-- `buzz.deletion_executor_community` and `buzz.deletion_fence_generation`. -/
  executor : Option (CommunityId × Nat)
  /-- `buzz.serving_write_*`. -/
  serving : Option ServingWriteLease
  community : CommunityId
  request : Option Request
  returned : Option Request
  candidate : Option Uuid
  target : Option (CommunityId × String)
  existing : Option Request
  generation : Nat
  archivedAt : Option Int
  change : Option RowChange
  targets : List CommunityId
  scanned : List Uuid
  chunkNos : List Int
  chunk : Option ManifestKeyChunk
  lease : Option ServingWriteLease
deriving DecidableEq

def Vars.init : Vars :=
  { readCommitted := true, executor := none, serving := none, community := 0, request := none,
    returned := none, candidate := none, target := none, existing := none, generation := 0,
    archivedAt := none, change := none, targets := [], scanned := [], chunkNos := [],
    chunk := none, lease := none }

inductive Target where
  | known (community : CommunityId)
  | ofRequest

def Target.of (v : Vars) : Target → CommunityId
  | known c => c
  | ofRequest => v.community

inductive Generation where
  | ofToken (token : LeaseToken)
  | read

def Generation.of (v : Vars) : Generation → Option Nat
  | ofToken token => token.fenceGeneration
  | read => some v.generation

def require (b : Bool) (error : DbError) : Except DbError Unit :=
  if b then .ok () else .error error

/-! ## The write fence -/

/-- `assert_community_write_allowed`, after its shared lock. -/
def assertCommunityWriteAllowed (db : Db) (now : Int) (v : Vars) (target : CommunityId) :
    Except DbError Unit :=
  if !v.readCommitted then .error (.sqlx "community writes require READ COMMITTED isolation")
  else
    match db.communities.get? target with
    | none => .error (.sqlx s!"community write rejected: community {target.toText} is missing")
    | some c =>
      let servingLeaseValid := v.serving.any fun lease =>
        lease.communityId == target && lease.fenceGeneration == c.generation &&
          (db.leases.get? lease.id).any fun row => lease.names row && decide (now ≤ row.leaseUntil)
      if v.executor == some (target, c.generation) then .ok ()
      else if (c.state == .active || c.state == .quiescing) && servingLeaseValid then .ok ()
      else if c.state != .active then
        .error (.sqlx s!"community write fenced: community {target.toText} generation {c.generation}")
      else .ok ()

/-- `enforce_community_write_fence`: the communities it asserts, in this order. -/
def fenceTargets : Option TenantRow → Option TenantRow → List CommunityId
  | none, none => []
  | none, some new => new.communityId.toList
  | some old, none => old.communityId.toList
  | some old, some new =>
    match old.communityId, new.communityId with
    | some o, some n => if o = n then [o] else if o < n then [o, n] else [n, o]
    | none, some n => [n]
    | some o, none => [o]
    | none, none => []

/-- `enforce_community_tombstone` on an update. -/
def enforceCommunityTombstone (v : Vars) (id : CommunityId) (old new : Community) :
    Except DbError Unit :=
  let expected := if old.generation < new.generation then new.generation else old.generation
  if v.executor == some (id, expected) then .ok ()
  else if old.state != .active || new.state != old.state || new.generation != old.generation ||
      new.deletedAt != old.deletedAt then
    .error (.sqlx s!"community tombstone mutation rejected: community {id.toText} generation {old.generation}")
  else .ok ()

/-! ## Manifests and their chunks -/

/-- `validate_storage_manifest`. -/
def validateStorageManifest (manifest : StorageManifest) : Except DbError Unit := do
  require (manifest.version == 4)
    (.deletionSafety s!"unsupported storage manifest version {manifest.version}")
  require (!manifest.prefixes.isEmpty) (.deletionSafety "storage manifest has no tenant prefixes")
  require (decide (manifest.prefixes.IsChain fun x y => x.keyPrefix < y.keyPrefix))
    (.deletionSafety "storage manifest prefixes are not strictly sorted")
  manifest.prefixes.forM fun p => do
    require (!p.keyPrefix.isEmpty) (.deletionSafety "storage manifest contains an empty prefix")
    require (p.keysDigest.utf8ByteSize == 64 &&
        p.keysDigest.toList.all fun c => c.isDigit || ('a' ≤ c && c ≤ 'f'))
      (.deletionSafety s!"storage manifest digest for {p.keyPrefix} is not lowercase hex sha-256")

structure KeyStreamDigest where
  stream : String
  last : Option String
  count : Nat
deriving DecidableEq

namespace KeyStreamDigest

def new : KeyStreamDigest := ⟨"", none, 0⟩

def fold (d : KeyStreamDigest) (key : String) : Except DbError KeyStreamDigest :=
  if d.last.any fun last => decide (key ≤ last) then
    .error (.deletionSafety s!"storage key stream is not strictly ascending at {key}")
  else .ok ⟨d.stream ++ key ++ "\n", some key, d.count + 1⟩

def finish (env : Env) (d : KeyStreamDigest) : String × Nat := (env.sha256Hex d.stream, d.count)

end KeyStreamDigest

def closePrefix (env : Env) (summary : PrefixManifest) (digest : KeyStreamDigest) :
    Except DbError Unit :=
  require (digest.finish env == (summary.keysDigest, summary.objectCount))
    (.deletionSafety s!"frozen key chunks do not match the destructive manifest for prefix {summary.keyPrefix}")

def seekPrefix (env : Env) (chunkPrefix : String) :
    List PrefixManifest → KeyStreamDigest → Except DbError (List PrefixManifest × KeyStreamDigest)
  | [], _ =>
    .error (.deletionSafety s!"frozen key chunk prefix {chunkPrefix} is not in the destructive manifest")
  | summary :: rest, digest =>
    if summary.keyPrefix = chunkPrefix then .ok (summary :: rest, digest)
    else do
      closePrefix env summary digest
      seekPrefix env chunkPrefix rest .new

def foldKeys (chunkPrefix : String) : List String → KeyStreamDigest → Except DbError KeyStreamDigest
  | [], digest => .ok digest
  | key :: keys, digest => do
    require (chunkPrefix.toList.isPrefixOf key.toList)
      (.deletionSafety s!"frozen key {key} is outside its chunk prefix {chunkPrefix}")
    foldKeys chunkPrefix keys (← digest.fold key)

/-- `validate_manifest_key_chunks` from the chunk at `index` on. The current summary is the first
of the remaining ones. -/
def validateChunksFrom (env : Env) : Nat → List PrefixManifest → KeyStreamDigest →
    List (Int × Chunk) → Except DbError Unit
  | _, [], _, [] => .ok ()
  | _, summary :: rest, digest, [] => do
    closePrefix env summary digest
    rest.forM fun summary => closePrefix env summary .new
  | index, remaining, digest, (chunkNo, chunk) :: chunks => do
    require (chunkNo == index) (.deletionSafety "frozen key chunk sequence has gaps")
    let (remaining, digest) ← seekPrefix env chunk.keyPrefix remaining digest
    require (!chunk.keys.isEmpty) (.deletionSafety "frozen key chunk is empty")
    let digest ← foldKeys chunk.keyPrefix chunk.keys digest
    validateChunksFrom env (index + 1) remaining digest chunks

def validateManifestKeyChunks (env : Env) (manifest : StorageManifest)
    (chunks : List (Int × Chunk)) : Except DbError Unit :=
  validateChunksFrom env 0 manifest.prefixes .new chunks

end Vingilot.Deletion
