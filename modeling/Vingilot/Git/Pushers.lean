import Vingilot.Lib.Machine
import Vingilot.Git.Publish

/-! # Pushers and readers of one object store

Each party runs its program one request at a time, in any order among the others. A push
is `hydrate_for_write`, then `receive-pack`, then `cas_publish` with what was hydrated.
-/

namespace Vingilot.Git

abbrev Pid := Nat

/-- How a push ended. `receiveFailed` is a push that `receive-pack` or its hook refused. -/
inductive PushOutcome where
  | hydrateFailed (error : HydrateError)
  | receiveFailed
  | published (result : Except CasError CasSuccess)

/-- `receive` is what `receive-pack` makes of the workspace. -/
def push (sha : Sha256) (git : GitTool) (options : HydrationOptions) (pkey : String)
    (receive : ParentState → Option Workspace) : StoreM PushOutcome := do
  match ← (hydrateForWrite sha git options pkey).run with
  | .error e => pure (.hydrateFailed e)
  | .ok (repo, parentState) =>
    match receive parentState with
    | none => pure .receiveFailed
    | some ws =>
      let limits := ⟨repo.hydratedBytes, options.maxPackBytes, options.maxRepoBytes⟩
      let result ← (casPublish sha git pkey ws parentState limits).run
      pure (.published result)

inductive Proc where
  | push (pkey : String) (program : StoreM PushOutcome)
  | read (program : StoreM (Except HydrateError (Option (ETag × String × Manifest))))

structure Install where
  pid : Pid
  pkey : String
  body : ByteArray

/-- The store and the parties. `puts` and `installs` record the requests that had their
effect. Nobody reads them. -/
structure World where
  store : Store
  procs : Table Pid Proc
  puts : List (String × ByteArray)
  installs : List Install

def World.init : World := ⟨.empty, ∅, [], []⟩

inductive Action where
  | push (pid : Pid) (options : HydrationOptions) (pkey : String)
      (receive : ParentState → Option Workspace)
  | read (pid : Pid) (pkey : String)
  | request (pid : Pid) (fault : Option Fault)

section

variable (sha : Sha256) (git : GitTool) (etag : ByteArray → ETag)

def Op.puts : Op → List (String × ByteArray)
  | .putNew key bytes => [(key, bytes)]
  | _ => []

def Op.installs (store : Store) (pid : Pid) : Op → List Install
  | .putPointer key body precond =>
    if precond.holds etag (store.pointers.get? key) then [⟨pid, key, body⟩] else []
  | _ => []

def World.serve (s : World) (pid : Pid) (op : Op) (fault : Option Fault) : World :=
  if fault = some .before then s
  else
    { s with
      store := (s.store.attempt etag op fault).2
      puts := s.puts ++ op.puts
      installs := s.installs ++ op.installs etag s.store pid }

def stepProc (s : World) (pid : Pid) (fault : Option Fault) : Proc → Option World
  | .push pkey (.call op k) =>
    let s' := s.serve etag pid op fault
    some { s' with procs := s.procs.set pid (.push pkey (k (s.store.attempt etag op fault).1)) }
  | .read (.call op k) =>
    let s' := s.serve etag pid op fault
    some { s' with procs := s.procs.set pid (.read (k (s.store.attempt etag op fault).1)) }
  | _ => none

def step (s : World) : Action → Option World
  | .push pid options pkey receive =>
    if (s.procs.get? pid).isSome then none
    else some { s with
      procs := s.procs.set pid (.push pkey (push sha git options pkey receive)) }
  | .read pid pkey =>
    if (s.procs.get? pid).isSome then none
    else some { s with procs := s.procs.set pid (.read (loadPointer sha pkey)) }
  | .request pid fault => (s.procs.get? pid).bind (stepProc etag s pid fault)

end

/-! ## What is installed -/

def Manifest.body (sha : Sha256) (m : Manifest) : ByteArray := (sha.hex m.canonicalBytes).toUTF8

def Store.manifestAt (store : Store) (digest : String) : Option Manifest :=
  (store.objects.get? ("manifests/" ++ digest)).bind fun bytes =>
    (Manifest.fromBytes bytes).toOption

def World.bodiesAt (s : World) (pkey : String) : List ByteArray :=
  (s.installs.filter fun i => i.pkey = pkey).map Install.body

structure LinearHistory (sha : Sha256) (s : World) (pkey : String) (ms : List Manifest) : Prop where
  bodies : s.bodiesAt pkey = ms.map (Manifest.body sha)
  stored : ∀ m ∈ ms, s.store.manifestAt (sha.hex m.canonicalBytes) = some m
  first : ∀ m ∈ ms.head?, m.parent = none
  linked : ms.IsChain fun m m' => m'.parent = some (sha.hex m.canonicalBytes)
  nodup : ms.Nodup
  pointer : s.store.pointers.get? pkey = ms.getLast?.map (Manifest.body sha)

def CollisionFree (sha : Sha256) (s : World) : Prop :=
  ∀ b b', (contentKey sha "manifests" b, b) ∈ s.puts → (contentKey sha "manifests" b', b') ∈ s.puts →
    sha.hex b = sha.hex b' → b = b'

def ETagsDiffer (etag : ByteArray → ETag) (s : World) : Prop :=
  ∀ pkey, ∀ b ∈ s.bodiesAt pkey, ∀ b' ∈ s.bodiesAt pkey, etag b = etag b' → b = b'

end Vingilot.Git
