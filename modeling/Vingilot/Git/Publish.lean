import Vingilot.Git.Hydrate

/-! # Publication of a push (`api/git/cas_publish.rs`)

The workspace after `receive-pack` is known by what Git prints about it. Time limits show
as the command that does not finish, and metrics are left out.
-/

namespace Vingilot.Git

inductive CasError where
  | conflict (winnerManifest : Manifest) (winnerManifestKey : String)
  | manifestReadFailed (text : String)
  | manifestInvalid (error : ManifestError)
  | backend (error : StoreError)
  | packCapture (text : String)
  | resourceLimit (text : String)
deriving DecidableEq

structure PublishLimits where
  parentHydratedBytes : Nat
  maxPackBytes : Nat
  maxRepoBytes : Nat

structure CasSuccess where
  manifest : Manifest
  manifestKey : String

/-- What Git reports about the workspace. `none` is a command that failed or ran out of time. -/
structure Workspace where
  refsStdout : Option ByteArray
  headStdout : Option String
  compactionPermit : Bool
  /-- The loose and the packed objects of `count-objects`. -/
  objectCounts : Option (Nat × Nat)
  compactedPacks : Option (List ByteArray)
  compactionCalls : Nat
  deltaPack : Option ByteArray

/-! ## The ref snapshot -/

def maxRefSnapshotBytes : Nat := 4 * 1024 * 1024

def splitSpace (line : List Char) : Option (List Char × List Char) :=
  match line.dropWhile (· ≠ ' ') with
  | [] => none
  | _ :: rest => some (line.takeWhile (· ≠ ' '), rest)

def addRef (refs : OrdMap String String) (line : List Char) : Except CasError (OrdMap String String) :=
  match splitSpace line with
  | none => .ok refs
  | some (name, oid) =>
    let name := String.ofList name
    let oid := String.ofList oid
    if oid.utf8ByteSize ≠ 40 ∨ !oid.toList.all isHexDigit then .ok refs
    else if maxManifestRefs ≤ refs.size ∧ !refs.contains name then
      .error (.resourceLimit s!"workspace contains more than {maxManifestRefs} refs")
    else .ok (refs.insert name oid)

def snapshotRefs (stdout : ByteArray) : Except CasError (OrdMap String String) :=
  if maxRefSnapshotBytes < stdout.size then
    .error (.resourceLimit
      s!"ref snapshot is {stdout.size} bytes (max {maxRefSnapshotBytes})")
  else (Text.lines ((String.fromUTF8? stdout).getD "").toList).foldlM addRef .empty

/-- The refs and the target of `HEAD`, which is empty when it is detached. -/
def snapshotWorkspaceState (ws : Workspace) :
    Except CasError (OrdMap String String × String) :=
  match ws.refsStdout with
  | none => .error (.packCapture "for-each-ref failed")
  | some stdout => do
    let refs ← snapshotRefs stdout
    .ok (refs, (ws.headStdout.map fun s => String.ofList (Text.trim s.toList)).getD "")

def isBranch (name : String) : Bool := "refs/heads/".toList.isPrefixOf name.toList

def resolvePublishedHead (refs : OrdMap String String) (observedHead parentHead : String) : String :=
  let isPublishedBranch := fun name => isBranch name && refs.contains name
  if isPublishedBranch observedHead then observedHead
  else if isPublishedBranch parentHead then parentHead
  else if refs.contains "refs/heads/main" then "refs/heads/main"
  else if refs.contains "refs/heads/master" then "refs/heads/master"
  else
    match refs.keys.find? isBranch with
    | some branch => branch
    | none => if !observedHead.isEmpty then observedHead else parentHead

/-! ## Packs -/

def digestFromPackKey (key : String) : Except CasError String :=
  match stripPrefix key "packs/" with
  | some digest =>
    if isDigestText digest then .ok digest
    else .error (.backend (.backend "put_pack returned non-standard key"))
  | none => .error (.backend (.backend "put_pack returned non-standard key"))

def tryPutIdx (git : GitTool) (digest : String) (pack : ByteArray) : StoreM Unit :=
  match git.indexPack pack with
  | none => pure ()
  | some idx => do
    let _ ← (putIdx digest idx).run
    pure ()

def writeIdxSidecar (git : GitTool) (packKey : String) (pack : ByteArray) : StoreM Unit :=
  match digestFromPackKey packKey with
  | .error _ => pure ()
  | .ok digest => tryPutIdx git digest pack

/-- The new objects as one pack. `none` when there is nothing to store. -/
def capturePack (ws : Workspace) (refsAfter : OrdMap String String) (maxPackBytes : Nat) :
    Except CasError (Option ByteArray) :=
  if refsAfter.entries.isEmpty then .ok none
  else
    match ws.deltaPack with
    | none => .error (.packCapture "pack-objects failed")
    | some pack =>
      if maxPackBytes < pack.size then
        .error (.resourceLimit
          s!"pack-objects output is {pack.size} bytes (max {maxPackBytes})")
      else if pack.size = 0 then .ok none
      else .ok (some pack)

def shouldCompact (parentPackCount threshold : Nat) : Bool := decide (threshold ≤ parentPackCount)

def compactedPackSetIsUsable (parentPackCount compactedPackCount : Nat) : Bool :=
  decide (compactedPackCount < parentPackCount) ||
    (decide (maxManifestPacks ≤ parentPackCount) && decide (compactedPackCount ≤ maxManifestPacks))

def maxCompactionObjects : Nat := 1000000

def enforceCompactionObjectLimit (ws : Workspace) : Except CasError Unit :=
  match ws.objectCounts with
  | none => .error (.packCapture "count-objects failed")
  | some (loose, packed) =>
    if u64Bound ≤ loose + packed then
      .error (.resourceLimit "compaction object count overflowed u64")
    else if maxCompactionObjects < loose + packed then
      .error (.resourceLimit
        s!"repository has {loose + packed} objects (compaction max {maxCompactionObjects})")
    else .ok ()

def checkCompactedPacks (git : GitTool) (limits : PublishLimits) (total : Nat) :
    List ByteArray → Except CasError Unit
  | [] => .ok ()
  | pack :: packs =>
    if limits.maxPackBytes < pack.size then
      .error (.resourceLimit
        s!"compacted pack is {pack.size} bytes (max {limits.maxPackBytes})")
    else if u64Bound ≤ total + pack.size then
      .error (.resourceLimit "compacted byte count overflowed u64")
    else if limits.maxRepoBytes < total + pack.size then
      .error (.resourceLimit
        s!"compacted repo needs {total + pack.size} bytes (max {limits.maxRepoBytes})")
    else
      match git.indexPack pack with
      | none => .error (.packCapture "stat compacted idx")
      | some idx =>
        if limits.maxPackBytes < idx.size then
          .error (.resourceLimit
            s!"compacted idx is {idx.size} bytes (max {limits.maxPackBytes})")
        else checkCompactedPacks git limits (total + pack.size) packs

def captureCompactedPacks (git : GitTool) (ws : Workspace) (refsAfter : OrdMap String String)
    (limits : PublishLimits) : Except CasError (List ByteArray) :=
  if refsAfter.entries.isEmpty then .ok []
  else do
    enforceCompactionObjectLimit ws
    match ws.compactedPacks with
    | none => .error (.packCapture "compaction pack-objects failed")
    | some packs =>
      if maxManifestPacks < packs.length then
        .error (.resourceLimit
          s!"compaction produced {packs.length} packs (max {maxManifestPacks})")
      else do
        checkCompactedPacks git limits 0 packs
        .ok packs

def compactionTimeout : CasError := .packCapture "pack compaction operation timed out"

/-- Uploads one pack after the other. `calls` is what the time limit leaves room for. -/
def uploadCompactedPacks (sha : Sha256) (git : GitTool) (calls : Nat) :
    List ByteArray → ResultM CasError (List String)
  | [] => pure []
  | pack :: packs =>
    if calls = 0 then throw compactionTimeout
    else do
      let packKey ← Program.mapError CasError.backend (putPack sha pack)
      let digest ← Program.ofExcept (digestFromPackKey packKey)
      if calls = 1 then throw compactionTimeout
      else
        Program.lift (tryPutIdx git digest pack)
        let packKeys ← uploadCompactedPacks sha git (calls - 2) packs
        pure (packKey :: packKeys)

def prepareCompaction (sha : Sha256) (git : GitTool) (ws : Workspace)
    (refsAfter : OrdMap String String) (limits : PublishLimits) (packsBefore : Nat) :
    ResultM CasError (List String) := do
  let compacted ← Program.ofExcept (captureCompactedPacks git ws refsAfter limits)
  if !compactedPackSetIsUsable packsBefore compacted.length then
    throw (.resourceLimit
      s!"compaction did not reduce pack count (before {packsBefore}, after {compacted.length})")
  else
    let packKeys ← uploadCompactedPacks sha git ws.compactionCalls compacted
    pure (sortDedup packKeys)

/-- `none` when the parent has too few packs for it. -/
def attemptCompaction (sha : Sha256) (git : GitTool) (ws : Workspace)
    (refsAfter : OrdMap String String) (limits : PublishLimits) (packsBefore : Nat) :
    StoreM (Option (Except CasError (List String))) :=
  if shouldCompact packsBefore packCompactionThreshold then
    if ws.compactionPermit then do
      let r ← (prepareCompaction sha git ws refsAfter limits packsBefore).run
      pure (some r)
    else pure (some (.error (.packCapture "timed out waiting for pack compaction capacity")))
  else pure none

/-! ## The new manifest -/

def composeAfter (parent : Manifest) (parentDigest : Option String) (head : String)
    (refs : OrdMap String String) (newPackKey : Option String) : Manifest :=
  let packs :=
    match newPackKey with
    | some key => if key ∈ parent.packs then parent.packs else parent.packs ++ [key]
    | none => parent.packs
  ⟨manifestVersion, head, refs, sortDedup packs, parentDigest⟩

def composeCompactedAfter (parentDigest : Option String) (head : String)
    (refs : OrdMap String String) (compactedPackKeys : List String) : Manifest :=
  ⟨manifestVersion, head, refs, sortDedup compactedPackKeys, parentDigest⟩

def publishDelta (sha : Sha256) (git : GitTool) (ws : Workspace) (parentState : ParentState)
    (limits : PublishLimits) (refsAfter : OrdMap String String) (head : String)
    (compactionFailure : Option CasError) : ResultM CasError Manifest := do
  let packsBefore := parentState.parent.packs.length
  match ← Program.ofExcept (capturePack ws refsAfter limits.maxPackBytes) with
  | none => pure (composeAfter parentState.parent parentState.parentDigest head refsAfter none)
  | some bytes =>
    if maxManifestPacks ≤ packsBefore then
      throw (compactionFailure.getD (.resourceLimit
        s!"repository already names {packsBefore} packs and compaction failed"))
    else if u64Bound ≤ limits.parentHydratedBytes + bytes.size then
      throw (.resourceLimit "repo byte count overflowed u64")
    else if limits.maxRepoBytes < limits.parentHydratedBytes + bytes.size then
      throw (.resourceLimit
        s!"repo would need {limits.parentHydratedBytes + bytes.size} hydrated bytes (max {limits.maxRepoBytes})")
    else
      let packKey ← Program.mapError CasError.backend (putPack sha bytes)
      Program.lift (writeIdxSidecar git packKey bytes)
      pure (composeAfter parentState.parent parentState.parentDigest head refsAfter (some packKey))

def composeManifest (sha : Sha256) (git : GitTool) (ws : Workspace) (parentState : ParentState)
    (limits : PublishLimits) : ResultM CasError Manifest := do
  let (refsAfter, headObserved) ← Program.ofExcept (snapshotWorkspaceState ws)
  let head := resolvePublishedHead refsAfter headObserved parentState.parent.head
  let compaction ← Program.lift
    (attemptCompaction sha git ws refsAfter limits parentState.parent.packs.length)
  match compaction with
  | some (.ok packKeys) =>
    pure (composeCompactedAfter parentState.parentDigest head refsAfter packKeys)
  | some (.error e) => publishDelta sha git ws parentState limits refsAfter head (some e)
  | none => publishDelta sha git ws parentState limits refsAfter head none

/-! ## The commit -/

def digestFromManifestKey (key : String) : Except CasError String :=
  match stripPrefix key "manifests/" with
  | some digest => .ok digest
  | none => .error (.backend (.backend "put_manifest returned non-standard key"))

def storeToWinner : StoreError → CasError
  | .digestMismatch _ _ _ => .manifestReadFailed "winner manifest digest mismatch"
  | .notFound _ => .manifestReadFailed "winner pointer names missing manifest"
  | e => .backend e

def readWinnerAfterConflict (sha : Sha256) (pkey : String) :
    ResultM CasError (Manifest × String) := do
  match ← Program.mapError CasError.backend (getPointer pkey) with
  | none =>
    throw (.manifestReadFailed "pointer vanished after LostRace (no-delete rule violated)")
  | some (_, body) =>
    match pointerDigest body with
    | none => throw (.manifestReadFailed "winner pointer body is not a 64-char hex digest")
    | some digest =>
      let manifestKey := "manifests/" ++ digest
      let bytes ← Program.mapError storeToWinner (getVerified sha manifestKey digest)
      match Manifest.fromBytes bytes with
      | .error _ => throw (.manifestReadFailed "parse winner manifest")
      | .ok winner => pure (winner, manifestKey)

def ParentState.precond (parentState : ParentState) : Precond :=
  match parentState.ifMatch with
  | some e => .ifMatch e
  | none => .ifNoneMatchStar

def swapPointer (sha : Sha256) (pkey : String) (parentState : ParentState) (mAfter : Manifest)
    (manifestKey : String) : ResultM CasError CasSuccess := do
  let manifestDigest ← Program.ofExcept (digestFromManifestKey manifestKey)
  match ← Program.mapError CasError.backend
      (putPointer pkey manifestDigest.toUTF8 parentState.precond) with
  | .won _ => pure ⟨mAfter, manifestKey⟩
  | .lostRace =>
    let (winner, winnerKey) ← readWinnerAfterConflict sha pkey
    throw (.conflict winner winnerKey)

def commitManifest (sha : Sha256) (pkey : String) (parentState : ParentState) (mAfter : Manifest) :
    ResultM CasError CasSuccess := do
  Program.ofExcept (mAfter.validate.mapError CasError.manifestInvalid)
  let manifestKey ← Program.mapError CasError.backend (putManifest sha mAfter.canonicalBytes)
  swapPointer sha pkey parentState mAfter manifestKey

def casPublish (sha : Sha256) (git : GitTool) (pkey : String) (ws : Workspace)
    (parentState : ParentState) (limits : PublishLimits) : ResultM CasError CasSuccess := do
  let mAfter ← composeManifest sha git ws parentState limits
  commitManifest sha pkey parentState mAfter

end Vingilot.Git
