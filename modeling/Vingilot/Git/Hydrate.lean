import Vingilot.Git.Store

/-! # Hydration (`api/git/hydrate.rs`, `api/git/pack_cache.rs`)

A repository is rebuilt from its pointer, its manifest and its packs. The local pack
cache is a copy of objects that never change, so every pack is read from the store here. The
files of the workspace are left out.
-/

namespace Vingilot.Git

/-- What Git makes of a pack. `none` when `index-pack` rejects it. -/
structure GitTool where
  indexPack : ByteArray → Option ByteArray

def maxManifestBytes : Nat := 4 * 1024 * 1024

inductive HydrateError where
  | invalidPointer
  | manifest (error : ManifestError)
  | store (error : StoreError)
  | hydrate (text : String)
  | resourceLimit (text : String)

structure HydrationOptions where
  maxPackBytes : Nat
  maxRepoBytes : Nat

/-- `HydratedRepo`: the bytes and the number of its packs. -/
structure HydratedRepo where
  hydratedBytes : Nat
  hydratedPacks : Nat

structure ParentState where
  ifMatch : Option ETag
  parentDigest : Option String
  parent : Manifest

def ParentState.fresh : ParentState := ⟨none, none, ⟨manifestVersion, "", .empty, [], none⟩⟩

def ParentState.fromLoaded (etag : ETag) (digest : String) (parent : Manifest) : ParentState :=
  ⟨some etag, some digest, parent⟩

/-! ## The pointer and its manifest -/

def pointerDigest (body : ByteArray) : Option String :=
  (String.fromUTF8? body).bind fun text =>
    let digest := String.ofList (Text.trim text.toList)
    if isDigestText digest then some digest else none

def storeToHydrate (key : String) : StoreError → HydrateError
  | .objectTooLarge _ size max =>
    .resourceLimit s!"object {key} is {size} bytes (max {max})"
  | e => .store e

def readVerifiedLimited (sha : Sha256) (key digest : String) (maxBytes : Nat) :
    ResultM HydrateError ByteArray :=
  Program.mapError (storeToHydrate key) (getVerifiedLimited sha key digest maxBytes)

/-- The part of `load_pointer` below the pointer. -/
def loadManifest (sha : Sha256) (digest : String) : ResultM HydrateError Manifest := do
  let bytes ← readVerifiedLimited sha ("manifests/" ++ digest) digest maxManifestBytes
  let manifest ← Program.ofExcept ((Manifest.fromBytes bytes).mapError .manifest)
  Program.ofExcept (manifest.validate.mapError .manifest)
  pure manifest

/-- `load_pointer` after the GET of the pointer. -/
def loadFrom (sha : Sha256) :
    Option (ETag × ByteArray) → ResultM HydrateError (Option (ETag × String × Manifest))
  | none => pure none
  | some (etag, body) =>
    match pointerDigest body with
    | none => throw .invalidPointer
    | some digest => do
      let manifest ← loadManifest sha digest
      pure (some (etag, digest, manifest))

def loadPointer (sha : Sha256) (pkey : String) :
    ResultM HydrateError (Option (ETag × String × Manifest)) := do
  let pointer ← Program.mapError HydrateError.store (getPointer pkey)
  loadFrom sha pointer

/-! ## Packs -/

def generateIdx (git : GitTool) (digest : String) (pack : ByteArray) (maxIdxBytes : Nat) :
    ResultM HydrateError Unit :=
  match git.indexPack pack with
  | none => throw (.hydrate "git index-pack failed")
  | some idx =>
    if maxIdxBytes < idx.size then
      throw (.resourceLimit s!"generated idx {digest} is {idx.size} bytes (max {maxIdxBytes})")
    else pure ()

/-- A sidecar is used only if `verify-pack` accepts it, which is to say that it is the index of
the pack. -/
def installOrGenerateIdx (git : GitTool) (digest : String) (pack : ByteArray) (maxIdxBytes : Nat) :
    ResultM HydrateError Unit := ExceptT.mk do
  match ← (getIdx digest maxIdxBytes).run with
  | .ok (some idx) =>
    if git.indexPack pack = some idx then pure (.ok ())
    else generateIdx git digest pack maxIdxBytes
  | .ok none => generateIdx git digest pack maxIdxBytes
  | .error _ => generateIdx git digest pack maxIdxBytes

def materializePack (sha : Sha256) (git : GitTool) (key digest : String) (maxPackBytes : Nat) :
    ResultM HydrateError Nat := do
  if !isDigestText digest then throw (.hydrate "pack cache digest is malformed")
  else
    let bytes ← readVerifiedLimited sha key digest maxPackBytes
    installOrGenerateIdx git digest bytes maxPackBytes
    pure bytes.size

def u64Bound : Nat := 2 ^ 64

def materializePacks (sha : Sha256) (git : GitTool) (options : HydrationOptions) (hydrated : Nat) :
    List String → ResultM HydrateError Nat
  | [] => pure hydrated
  | key :: keys =>
    match stripPrefix key "packs/" with
    | none => throw (.hydrate s!"malformed pack key {key}")
    | some digest => do
      let packBytes ← materializePack sha git key digest options.maxPackBytes
      if options.maxPackBytes < packBytes then
        throw (.resourceLimit
          s!"pack {digest} is {packBytes} bytes (max {options.maxPackBytes})")
      else if u64Bound ≤ hydrated + packBytes then
        throw (.resourceLimit "repo byte count overflowed u64")
      else if options.maxRepoBytes < hydrated + packBytes then
        throw (.resourceLimit
          s!"repo needs {hydrated + packBytes} hydrated bytes (max {options.maxRepoBytes})")
      else materializePacks sha git options (hydrated + packBytes) keys

def checkInstalledRef (r : String × String) : Except HydrateError Unit :=
  if !isSafeRefname r.1 then .error (.hydrate s!"manifest contains unsafe refname {r.1}")
  else if !isHexOid r.2 then .error (.hydrate s!"manifest ref {r.1} has malformed oid")
  else .ok ()

def installRefs (manifest : Manifest) : Except HydrateError Unit := do
  manifest.refs.entries.forM checkInstalledRef
  if !isSafeRefname manifest.head then
    .error (.hydrate s!"manifest head {manifest.head} is not a safe ref name")
  else .ok ()

def materializeManifest (sha : Sha256) (git : GitTool) (options : HydrationOptions)
    (manifest : Manifest) : ResultM HydrateError HydratedRepo := do
  let hydratedBytes ← materializePacks sha git options 0 manifest.packs
  Program.ofExcept (installRefs manifest)
  pure ⟨hydratedBytes, manifest.packs.length⟩

/-! ## For reading and for writing -/

def hydrateForRead (sha : Sha256) (git : GitTool) (options : HydrationOptions) (pkey : String) :
    ResultM HydrateError (Option HydratedRepo) := do
  match ← loadPointer sha pkey with
  | none => pure none
  | some (_, _, manifest) =>
    let repo ← materializeManifest sha git options manifest
    pure (some repo)

def hydrateLoaded (sha : Sha256) (git : GitTool) (options : HydrationOptions) :
    Option (ETag × String × Manifest) → ResultM HydrateError (HydratedRepo × ParentState)
  | some (etag, digest, manifest) => do
    let repo ← materializeManifest sha git options manifest
    pure (repo, .fromLoaded etag digest manifest)
  | none => pure (⟨0, 0⟩, .fresh)

def hydrateForWrite (sha : Sha256) (git : GitTool) (options : HydrationOptions) (pkey : String) :
    ResultM HydrateError (HydratedRepo × ParentState) := do
  let loaded ← loadPointer sha pkey
  hydrateLoaded sha git options loaded

/-! ## Digests -/

theorem hexDigit_not_whitespace (c : Char) (h : isHexDigit c = true) :
    Text.isWhitespace c = false := by
  have hbounds := hexDigit_bounds h
  simp only [Text.isWhitespace, Bool.or_eq_false_iff, Bool.and_eq_false_iff, decide_eq_false_iff_not,
    beq_eq_false_iff_ne]
  omega

theorem trim_of_not_whitespace {cs : List Char} (h : ∀ c ∈ cs, Text.isWhitespace c = false) :
    Text.trim cs = cs := by
  have hkeep : ∀ ds : List Char, (∀ c ∈ ds, Text.isWhitespace c = false) →
      ds.dropWhile Text.isWhitespace = ds := by
    intro ds hds
    cases ds with
    | nil => rfl
    | cons d ds => simp [hds d]
  rw [Text.trim, hkeep cs h, hkeep cs.reverse (by simpa using h), List.reverse_reverse]

theorem isDigestText_of_digest {digest : String} (h : isManifestDigest digest = true) :
    isDigestText digest = true := by
  have hsize : (digest.utf8ByteSize == 64) = true := by
    simp only [isManifestDigest, Bool.and_eq_true] at h
    exact h.1
  simp only [isDigestText, hsize, Bool.true_and, List.all_eq_true]
  exact isHexDigit_of_digest h

theorem pointerDigest_toUTF8 {digest : String} (h : isManifestDigest digest = true) :
    pointerDigest digest.toUTF8 = some digest := by
  have hhex := isHexDigit_of_digest h
  have htrim : Text.trim digest.toList = digest.toList :=
    trim_of_not_whitespace fun c hc => hexDigit_not_whitespace c (hhex c hc)
  simp only [pointerDigest, Text.fromUTF8?_toUTF8, Option.bind_some, htrim, String.ofList_toList,
    isDigestText_of_digest h, if_true]

end Vingilot.Git
