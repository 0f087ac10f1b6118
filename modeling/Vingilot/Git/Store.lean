import Vingilot.Lib.Program
import Vingilot.Lib.Collections
import Vingilot.Git.Manifest

/-! # The object store (`api/git/store.rs`)

The requests are operations, so that those of several parties can be interleaved. Objects
are never overwritten and never deleted. A pointer changes only under its precondition.
-/

namespace Vingilot.Git

structure Sha256 where
  hex : ByteArray → String
  hex_isDigest : ∀ bytes, isManifestDigest (hex bytes) = true

structure ETag where
  tag : String
deriving DecidableEq

inductive Precond where
  | ifNoneMatchStar
  | ifMatch (etag : ETag)

inductive CasOutcome where
  | won (etag : ETag)
  | lostRace

inductive StoreError where
  | notFound (key : String)
  | objectTooLarge (key : String) (size max : Nat)
  | digestMismatch (key expected actual : String)
  | backend (text : String)
deriving DecidableEq

/-! ## Requests -/

inductive Op where
  | head (key : String)
  | get (key : String)
  | getPointer (key : String)
  /-- A PUT with `If-None-Match: *` under a key that is derived from the content. -/
  | putNew (key : String) (bytes : ByteArray)
  | putPointer (key : String) (body : ByteArray) (precond : Precond)

/-- The content length, the bytes, the pointer with its ETag, nothing, or the CAS outcome. -/
def Op.Reply : Op → Type
  | .head _ => Except StoreError Nat
  | .get _ => Except StoreError ByteArray
  | .getPointer _ => Except StoreError (Option (ETag × ByteArray))
  | .putNew _ _ => Except StoreError Unit
  | .putPointer _ _ _ => Except StoreError CasOutcome

abbrev StoreM := Program Op Op.Reply

abbrev ResultM (ε : Type) := ExceptT ε StoreM

def headObject (key : String) : ResultM StoreError Nat := ExceptT.mk (.call (.head key) .ret)

def getObject (key : String) : ResultM StoreError ByteArray :=
  ExceptT.mk (.call (.get key) .ret)

def getPointer (key : String) : ResultM StoreError (Option (ETag × ByteArray)) :=
  ExceptT.mk (.call (.getPointer key) .ret)

def putNew (key : String) (bytes : ByteArray) : ResultM StoreError Unit :=
  ExceptT.mk (.call (.putNew key bytes) .ret)

def putPointer (key : String) (body : ByteArray) (precond : Precond) :
    ResultM StoreError CasOutcome :=
  ExceptT.mk (.call (.putPointer key body precond) .ret)

def contentKey (sha : Sha256) (kind : String) (bytes : ByteArray) : String :=
  kind ++ "/" ++ sha.hex bytes

def putImmutable (sha : Sha256) (kind : String) (bytes : ByteArray) :
    ResultM StoreError String := do
  putNew (contentKey sha kind bytes) bytes
  pure (contentKey sha kind bytes)

def putPack (sha : Sha256) (bytes : ByteArray) : ResultM StoreError String :=
  putImmutable sha "packs" bytes

def putManifest (sha : Sha256) (bytes : ByteArray) : ResultM StoreError String :=
  putImmutable sha "manifests" bytes

def isDigestText (s : String) : Bool := s.utf8ByteSize == 64 && s.toList.all isHexDigit

def idxKeyForPackDigest (packDigest : String) : ResultM StoreError String :=
  if !isDigestText packDigest then throw (.backend "invalid pack digest for idx sidecar")
  else pure ("idx/" ++ packDigest)

def putIdx (packDigest : String) (idxBytes : ByteArray) : ResultM StoreError String := do
  let key ← idxKeyForPackDigest packDigest
  putNew key idxBytes
  pure key

def getLimited (key : String) (maxBytes : Nat) : ResultM StoreError ByteArray := do
  let size ← headObject key
  if maxBytes < size then throw (.objectTooLarge key size maxBytes)
  else
    let bytes ← getObject key
    if maxBytes < bytes.size then throw (.objectTooLarge key bytes.size maxBytes)
    else pure bytes

def verify (sha : Sha256) (key expected : String) (bytes : ByteArray) :
    ResultM StoreError ByteArray :=
  if sha.hex bytes ≠ expected then throw (.digestMismatch key expected (sha.hex bytes))
  else pure bytes

def getVerified (sha : Sha256) (key expected : String) : ResultM StoreError ByteArray := do
  let bytes ← getObject key
  verify sha key expected bytes

def getVerifiedLimited (sha : Sha256) (key expected : String) (maxBytes : Nat) :
    ResultM StoreError ByteArray := do
  let bytes ← getLimited key maxBytes
  verify sha key expected bytes

def getIdx (packDigest : String) (maxBytes : Nat) : ResultM StoreError (Option ByteArray) := do
  let key ← idxKeyForPackDigest packDigest
  ExceptT.mk do
    match ← (getLimited key maxBytes).run with
    | .ok bytes => pure (.ok (some bytes))
    | .error (.notFound _) => pure (.ok none)
    | .error e => pure (.error e)

/-! ## What the store does -/

structure Store where
  objects : Table String ByteArray
  pointers : Table String ByteArray

def Store.empty : Store := ⟨∅, ∅⟩

inductive Fault where
  | before
  | after
deriving DecidableEq

variable (etag : ByteArray → ETag)

def Precond.holds (current : Option ByteArray) : Precond → Bool
  | .ifNoneMatchStar => current.isNone
  | .ifMatch e => current.any fun body => etag body == e

def Store.handle (s : Store) : (op : Op) → op.Reply × Store
  | .head key =>
    match s.objects.get? key with
    | some bytes => (.ok bytes.size, s)
    | none => (.error (.notFound key), s)
  | .get key =>
    match s.objects.get? key with
    | some bytes => (.ok bytes, s)
    | none => (.error (.notFound key), s)
  | .getPointer key => (.ok ((s.pointers.get? key).map fun body => (etag body, body)), s)
  | .putNew key bytes =>
    -- 412 for a key that is taken, which `put_immutable` takes for success.
    if (s.objects.get? key).isSome then (.ok (), s)
    else (.ok (), { s with objects := s.objects.set key bytes })
  | .putPointer key body precond =>
    if precond.holds etag (s.pointers.get? key) then
      (.ok (.won (etag body)), { s with pointers := s.pointers.set key body })
    else (.ok .lostRace, s)

variable (s : Store) (key : String)

@[simp]
theorem handle_head_store : (s.handle etag (.head key)).2 = s := by
  simp only [Store.handle]
  split <;> rfl

@[simp]
theorem handle_get_store : (s.handle etag (.get key)).2 = s := by
  simp only [Store.handle]
  split <;> rfl

@[simp]
theorem handle_getPointer : s.handle etag (.getPointer key) =
    (.ok ((s.pointers.get? key).map fun body => (etag body, body)), s) := rfl

@[simp]
theorem handle_putNew_store (bytes : ByteArray) :
    (s.handle etag (.putNew key bytes)).2 =
      if (s.objects.get? key).isSome then s else { s with objects := s.objects.set key bytes } := by
  simp only [Store.handle]
  split_ifs <;> rfl

@[simp]
theorem handle_putNew_reply (bytes : ByteArray) :
    (s.handle etag (.putNew key bytes)).1 = .ok () := by
  simp only [Store.handle]
  split_ifs <;> rfl

@[simp]
theorem handle_putPointer (body : ByteArray) (precond : Precond) :
    s.handle etag (.putPointer key body precond) =
      if precond.holds etag (s.pointers.get? key) then
        (.ok (.won (etag body)), { s with pointers := s.pointers.set key body })
      else (.ok .lostRace, s) := rfl

def Op.failed : (op : Op) → op.Reply
  | .head _ => .error (.backend "transport")
  | .get _ => .error (.backend "transport")
  | .getPointer _ => .error (.backend "transport")
  | .putNew _ _ => .error (.backend "transport")
  | .putPointer _ _ _ => .error (.backend "transport")

def Store.attempt (op : Op) : Option Fault → op.Reply × Store
  | none => s.handle etag op
  | some .before => (op.failed, s)
  | some .after => (op.failed, (s.handle etag op).2)

end Vingilot.Git
