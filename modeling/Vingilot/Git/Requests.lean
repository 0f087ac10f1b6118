import Vingilot.Git.Pushers

/-! # What a push and a read request

Whatever the store replies, a read changes nothing, and a push puts its manifest and then
its pointer at most once, with the precondition of the pointer it was hydrated from.
-/

namespace Vingilot.Git

open Program

def Op.publishes : Op → Bool
  | .putPointer _ _ _ => true
  | .putNew key _ => "manifests/".toList.isPrefixOf key.toList
  | _ => false

def Op.writes : Op → Bool
  | .putPointer _ _ _ => true
  | .putNew _ _ => true
  | _ => false

abbrev Quiet {α : Type} (p : StoreM α) : Prop := Avoids Op.publishes p

abbrev ReadOnly {α : Type} (p : StoreM α) : Prop := Avoids Op.writes p

variable {α β ε : Type}

theorem quiet_of_readOnly {p : StoreM α} (h : ReadOnly p) : Quiet p := by
  refine avoids_mono h ?_
  rintro (_ | _ | _ | _ | _) hop
  · rfl
  · rfl
  · rfl
  · cases hop
  · cases hop

/-! ## Store -/

theorem readOnly_headObject (key : String) : ReadOnly (headObject key) := fun _ => trivial

theorem readOnly_getObject (key : String) : ReadOnly (getObject key) := fun _ => trivial

theorem readOnly_getPointer (key : String) : ReadOnly (getPointer key) := fun _ => trivial

theorem quiet_putNew {key : String} (bytes : ByteArray)
    (h : "manifests/".toList.isPrefixOf key.toList = false) : Quiet (putNew key bytes) := by
  simp only [Avoids, Never, putNew, ExceptT.mk, Before, Op.publishes, h]
  exact fun _ => trivial

theorem quiet_putPack (sha : Sha256) (bytes : ByteArray) : Quiet (putPack sha bytes) := by
  refine avoids_exceptBind (quiet_putNew bytes ?_) fun _ => avoids_pure _
  simp [contentKey, List.isPrefixOf]

theorem readOnly_idxKey (digest : String) : ReadOnly (idxKeyForPackDigest digest) := by
  unfold idxKeyForPackDigest
  split_ifs
  · exact avoids_throw _
  · exact avoids_pure _

theorem readOnly_getLimited (key : String) (maxBytes : Nat) : ReadOnly (getLimited key maxBytes) := by
  refine avoids_exceptBind (readOnly_headObject key) fun size => ?_
  split_ifs
  · exact avoids_throw _
  · refine avoids_exceptBind (readOnly_getObject key) fun bytes => ?_
    split_ifs
    · exact avoids_throw _
    · exact avoids_pure _

theorem readOnly_verify (sha : Sha256) (key expected : String) (bytes : ByteArray) :
    ReadOnly (verify sha key expected bytes) := by
  unfold verify
  split_ifs
  · exact avoids_throw _
  · exact avoids_pure _

theorem readOnly_getVerified (sha : Sha256) (key expected : String) :
    ReadOnly (getVerified sha key expected) :=
  avoids_exceptBind (readOnly_getObject key) fun bytes => readOnly_verify sha key expected bytes

theorem readOnly_getVerifiedLimited (sha : Sha256) (key expected : String) (maxBytes : Nat) :
    ReadOnly (getVerifiedLimited sha key expected maxBytes) :=
  avoids_exceptBind (readOnly_getLimited key maxBytes) fun bytes => readOnly_verify sha key expected bytes

theorem readOnly_getIdx (digest : String) (maxBytes : Nat) : ReadOnly (getIdx digest maxBytes) := by
  refine avoids_exceptBind (readOnly_idxKey digest) fun key => ?_
  refine avoids_bind (readOnly_getLimited key maxBytes) fun r => ?_
  split
  · exact avoids_ret _
  · exact avoids_ret _
  · exact avoids_ret _

/-! ## Hydration -/

theorem readOnly_readVerifiedLimited (sha : Sha256) (key digest : String) (maxBytes : Nat) :
    ReadOnly (readVerifiedLimited sha key digest maxBytes) :=
  avoids_mapError _ (readOnly_getVerifiedLimited sha key digest maxBytes)

theorem readOnly_loadManifest (sha : Sha256) (digest : String) : ReadOnly (loadManifest sha digest) :=
  avoids_exceptBind (readOnly_readVerifiedLimited _ _ _ _) fun _ =>
    avoids_exceptBind (avoids_ofExcept _) fun _ =>
      avoids_exceptBind (avoids_ofExcept _) fun _ => avoids_pure _

theorem readOnly_loadFrom (sha : Sha256) (pointer : Option (ETag × ByteArray)) :
    ReadOnly (loadFrom sha pointer) := by
  unfold loadFrom
  split
  · exact avoids_pure _
  · split
    · exact avoids_throw _
    · exact avoids_exceptBind (readOnly_loadManifest sha _) fun _ => avoids_pure _

theorem readOnly_loadPointer (sha : Sha256) (pkey : String) : ReadOnly (loadPointer sha pkey) :=
  avoids_exceptBind (avoids_mapError _ (readOnly_getPointer pkey)) fun pointer =>
    readOnly_loadFrom sha pointer

theorem readOnly_generateIdx (git : GitTool) (digest : String) (pack : ByteArray) (maxBytes : Nat) :
    ReadOnly (generateIdx git digest pack maxBytes) := by
  unfold generateIdx
  split
  · exact avoids_throw _
  · split_ifs
    · exact avoids_throw _
    · exact avoids_pure _

theorem readOnly_installOrGenerateIdx (git : GitTool) (digest : String) (pack : ByteArray)
    (maxBytes : Nat) : ReadOnly (installOrGenerateIdx git digest pack maxBytes) := by
  refine avoids_bind (readOnly_getIdx digest maxBytes) fun r => ?_
  split
  · split_ifs
    · exact avoids_ret _
    · exact readOnly_generateIdx git digest pack maxBytes
  · exact readOnly_generateIdx git digest pack maxBytes
  · exact readOnly_generateIdx git digest pack maxBytes

theorem readOnly_materializePack (sha : Sha256) (git : GitTool) (key digest : String)
    (maxBytes : Nat) : ReadOnly (materializePack sha git key digest maxBytes) := by
  unfold materializePack
  split_ifs
  · exact avoids_throw _
  · exact avoids_exceptBind (readOnly_readVerifiedLimited _ _ _ _) fun bytes =>
      avoids_exceptBind (readOnly_installOrGenerateIdx git digest bytes maxBytes) fun _ => avoids_pure _

theorem readOnly_materializePacks (sha : Sha256) (git : GitTool) (options : HydrationOptions)
    (keys : List String) (hydrated : Nat) :
    ReadOnly (materializePacks sha git options hydrated keys) := by
  induction keys generalizing hydrated with
  | nil => exact avoids_pure _
  | cons key keys ih =>
    unfold materializePacks
    split
    · exact avoids_throw _
    · refine avoids_exceptBind (readOnly_materializePack sha git key _ _) fun packBytes => ?_
      split_ifs
      · exact avoids_throw _
      · exact avoids_throw _
      · exact avoids_throw _
      · exact ih _

theorem readOnly_materializeManifest (sha : Sha256) (git : GitTool) (options : HydrationOptions)
    (m : Manifest) : ReadOnly (materializeManifest sha git options m) :=
  avoids_exceptBind (readOnly_materializePacks sha git options m.packs 0) fun _ =>
    avoids_exceptBind (avoids_ofExcept _) fun _ => avoids_pure _

/-! ## Packs -/

theorem quiet_tryPutIdx (git : GitTool) (digest : String) (pack : ByteArray) :
    Quiet (tryPutIdx git digest pack) := by
  unfold tryPutIdx
  split
  · exact avoids_ret _
  · rename_i idx _
    refine avoids_bind ?_ fun _ => avoids_ret _
    unfold putIdx idxKeyForPackDigest
    split_ifs
    · exact avoids_throw _
    · change Quiet (putNew ("idx/" ++ digest) idx >>= fun _ => _)
      refine avoids_exceptBind (quiet_putNew idx ?_) fun _ => avoids_pure _
      simp [List.isPrefixOf]

theorem quiet_writeIdxSidecar (git : GitTool) (key : String) (pack : ByteArray) :
    Quiet (writeIdxSidecar git key pack) := by
  unfold writeIdxSidecar
  split
  · exact avoids_ret _
  · exact quiet_tryPutIdx git _ pack

theorem quiet_uploadCompactedPacks (sha : Sha256) (git : GitTool) (packs : List ByteArray)
    (calls : Nat) : Quiet (uploadCompactedPacks sha git calls packs) := by
  induction packs generalizing calls with
  | nil => exact avoids_pure _
  | cons pack packs ih =>
    unfold uploadCompactedPacks
    split
    · exact avoids_throw _
    · refine avoids_exceptBind (avoids_mapError _ (quiet_putPack sha pack)) fun key => ?_
      refine avoids_exceptBind (avoids_ofExcept _) fun digest => ?_
      split
      · exact avoids_throw _
      · exact avoids_exceptBind (avoids_lift (quiet_tryPutIdx git digest pack)) fun _ =>
          avoids_exceptBind (ih _) fun _ => avoids_pure _

theorem quiet_attemptCompaction (sha : Sha256) (git : GitTool) (ws : Workspace)
    (refs : OrdMap String String) (limits : PublishLimits) (packsBefore : Nat) :
    Quiet (attemptCompaction sha git ws refs limits packsBefore) := by
  unfold attemptCompaction
  split_ifs
  · refine avoids_bind ?_ fun _ => avoids_ret _
    refine avoids_exceptBind (avoids_ofExcept _) fun compacted => ?_
    split_ifs
    · exact avoids_throw _
    · exact avoids_exceptBind (quiet_uploadCompactedPacks sha git compacted _) fun _ => avoids_pure _
  · exact avoids_ret _
  · exact avoids_ret _

/-! ## The new manifest -/

structure Base where
  ifMatch : Option ETag
  digest : Option String

def ParentState.base (parentState : ParentState) : Base :=
  ⟨parentState.ifMatch, parentState.parentDigest⟩

def Base.precond (base : Base) : Precond :=
  match base.ifMatch with
  | some e => .ifMatch e
  | none => .ifNoneMatchStar

structure Composed (base : Base) (m : Manifest) : Prop where
  version : m.version = manifestVersion
  canonical : m.canonical = m
  parent : m.parent = base.digest

theorem composed_composeAfter (parentState : ParentState) (head : String)
    (refs : OrdMap String String) (key : Option String) :
    Composed parentState.base
      (composeAfter parentState.parent parentState.parentDigest head refs key) where
  version := rfl
  canonical := by
    simp only [Manifest.canonical, composeAfter, sortDedup_of_sorted (sorted_sortDedup _)]
  parent := rfl

theorem composed_composeCompactedAfter (parentState : ParentState) (head : String)
    (refs : OrdMap String String) (keys : List String) :
    Composed parentState.base (composeCompactedAfter parentState.parentDigest head refs keys) where
  version := rfl
  canonical := by
    simp only [Manifest.canonical, composeCompactedAfter, sortDedup_of_sorted (sorted_sortDedup _)]
  parent := rfl

variable {next : (op : Op) → (op.Reply → StoreM (Except ε β)) → Prop} {post : Except ε β → Prop}

theorem before_quietBind {p : ResultM ε α} {f : α → ResultM ε β} (hp : Quiet p)
    (herror : ∀ e, post (.error e)) (hf : ∀ a, Before Op.publishes next post (f a)) :
    Before Op.publishes next post (p >>= f : ResultM ε β) := by
  refine before_exceptBind (never_mono hp ?_) fun a (_ : True) => hf a
  rintro (e | a) -
  · exact herror e
  · trivial

def ComposesFrom (base : Base) (r : Except CasError Manifest) : Prop :=
  ∀ m, r = .ok m → Composed base m

theorem composesFrom_error (base : Base) (e : CasError) : ComposesFrom base (.error e) := nofun

theorem never_publishDelta (sha : Sha256) (git : GitTool) (ws : Workspace)
    (parentState : ParentState) (limits : PublishLimits) (refs : OrdMap String String)
    (head : String) (failure : Option CasError) :
    Never Op.publishes (ComposesFrom parentState.base)
      (publishDelta sha git ws parentState limits refs head failure) := by
  have herror := composesFrom_error parentState.base
  refine before_quietBind (avoids_ofExcept _) herror fun pack => ?_
  split
  · rintro m ⟨⟩
    exact composed_composeAfter parentState head refs none
  · split_ifs
    · exact herror _
    · exact herror _
    · exact herror _
    · refine before_quietBind (avoids_mapError _ (quiet_putPack sha _)) herror fun key => ?_
      refine before_quietBind (avoids_lift (quiet_writeIdxSidecar git key _)) herror fun _ => ?_
      rintro m ⟨⟩
      exact composed_composeAfter parentState head refs (some key)

theorem never_composeManifest (sha : Sha256) (git : GitTool) (ws : Workspace)
    (parentState : ParentState) (limits : PublishLimits) :
    Never Op.publishes (ComposesFrom parentState.base)
      (composeManifest sha git ws parentState limits) := by
  have herror := composesFrom_error parentState.base
  refine before_quietBind (avoids_ofExcept _) herror fun (refs, head) => ?_
  refine before_quietBind (avoids_lift (quiet_attemptCompaction sha git ws refs limits _)) herror
    fun compaction => ?_
  split
  · rintro m ⟨⟩
    exact composed_composeCompactedAfter parentState _ refs _
  · exact never_publishDelta sha git ws parentState limits refs _ _
  · exact never_publishDelta sha git ws parentState limits refs _ _

/-! ## The commit -/

variable {ω : Type}

def Lost (out : Except CasError CasSuccess → ω) (p : StoreM ω) : Prop :=
  Never Op.publishes (fun o => ∀ success, o ≠ out (.ok success)) p

/-- The next request is the CAS for `m`. -/
def Commits (sha : Sha256) (pkey : String) (base : Base) (out : Except CasError CasSuccess → ω)
    (m : Manifest) (p : StoreM ω) : Prop :=
  ∃ k, p = .call (.putPointer pkey (m.body sha) base.precond) k ∧
    (∀ e, k (.ok (.won e)) = .ret (out (.ok ⟨m, contentKey sha "manifests" m.canonicalBytes⟩))) ∧
    Lost out (k (.ok .lostRace)) ∧
    ∀ e, k (.error e) = .ret (out (.error (.backend e)))

/-- The first request that publishes puts a manifest that follows the base, and if that goes
well the CAS comes next. -/
def Publishes (sha : Sha256) (pkey : String) (base : Base) (out : Except CasError CasSuccess → ω) :
    (op : Op) → (op.Reply → StoreM ω) → Prop
  | .putNew key bytes, k =>
    ∃ m, Composed base m ∧ key = contentKey sha "manifests" m.canonicalBytes ∧
      bytes = m.canonicalBytes ∧ Commits sha pkey base out m (k (.ok ())) ∧
      ∀ e, Lost out (k (.error e))
  | _, _ => False

def Publishing (sha : Sha256) (pkey : String) (base : Base) (out : Except CasError CasSuccess → ω)
    (p : StoreM ω) : Prop :=
  Before Op.publishes (Publishes sha pkey base out) (fun o => ∀ success, o ≠ out (.ok success)) p

theorem pointerDigest_body (sha : Sha256) (m : Manifest) :
    pointerDigest (m.body sha) = some (sha.hex m.canonicalBytes) :=
  pointerDigest_toUTF8 (sha.hex_isDigest _)

theorem stripPrefix_append (pre s : String) : stripPrefix (pre ++ s) pre = some s := by
  simp [stripPrefix]

theorem lost_readWinner (sha : Sha256) (pkey : String) :
    Lost id (do
      let (winner, key) ← readWinnerAfterConflict sha pkey
      throw (.conflict winner key) : ResultM CasError CasSuccess) := by
  have herror : ∀ (e : CasError) (success : CasSuccess), Except.error e ≠ id (.ok success) := nofun
  have hreadOnly : ReadOnly (readWinnerAfterConflict sha pkey) := by
    refine avoids_exceptBind (avoids_mapError _ (readOnly_getPointer pkey)) fun r => ?_
    split
    · exact avoids_throw _
    · split
      · exact avoids_throw _
      · refine avoids_exceptBind (avoids_mapError _ (readOnly_getVerified sha _ _)) fun bytes => ?_
        split
        · exact avoids_throw _
        · exact avoids_pure _
  exact before_quietBind (quiet_of_readOnly hreadOnly) herror fun (winner, key) => herror _

theorem digestFromManifestKey_contentKey (sha : Sha256) (bytes : ByteArray) :
    digestFromManifestKey (contentKey sha "manifests" bytes) = .ok (sha.hex bytes) := by
  have hkey : contentKey sha "manifests" bytes = "manifests/" ++ sha.hex bytes := rfl
  rw [digestFromManifestKey, hkey, stripPrefix_append]

theorem commits_swapPointer (sha : Sha256) (pkey : String) (parentState : ParentState)
    (m : Manifest) :
    Commits sha pkey parentState.base id m
      (swapPointer sha pkey parentState m (contentKey sha "manifests" m.canonicalBytes)) := by
  unfold swapPointer
  rw [digestFromManifestKey_contentKey]
  exact ⟨_, rfl, fun _ => rfl, lost_readWinner sha pkey, fun _ => rfl⟩

theorem publishing_commitManifest (sha : Sha256) (pkey : String) (parentState : ParentState)
    (m : Manifest) (hm : Composed parentState.base m) :
    Publishing sha pkey parentState.base id (commitManifest sha pkey parentState m) := by
  have herror : ∀ (e : CasError) (success : CasSuccess), Except.error e ≠ id (.ok success) := nofun
  refine before_quietBind (avoids_ofExcept _) herror fun _ => ?_
  have hkey : Op.publishes (.putNew (contentKey sha "manifests" m.canonicalBytes)
      m.canonicalBytes) = true := by
    simp [Op.publishes, contentKey, List.isPrefixOf]
  change Before _ _ _ (.call (Op.putNew (contentKey sha "manifests" m.canonicalBytes)
    m.canonicalBytes) _)
  rw [Before, if_pos hkey]
  exact ⟨m, hm, rfl, rfl, commits_swapPointer sha pkey parentState m, fun e => herror _⟩

theorem publishing_casPublish (sha : Sha256) (git : GitTool) (pkey : String) (ws : Workspace)
    (parentState : ParentState) (limits : PublishLimits) :
    Publishing sha pkey parentState.base id (casPublish sha git pkey ws parentState limits) := by
  refine before_exceptBind (never_mono (never_composeManifest sha git ws parentState limits) ?_)
    fun m hm => publishing_commitManifest sha pkey parentState m hm
  rintro (e | m) h
  · exact nofun
  · exact h m rfl

/-! ## The whole push -/

theorem publishing_map {out : Except CasError CasSuccess → ω} (hout : Function.Injective out)
    {sha : Sha256} {pkey : String} {base : Base} {p : StoreM (Except CasError CasSuccess)}
    (hp : Publishing sha pkey base id p) :
    Publishing sha pkey base out (p >>= fun r => pure (out r)) := by
  have hpost : ∀ r : Except CasError CasSuccess, (∀ success, r ≠ id (.ok success)) →
      ∀ success, out r ≠ out (.ok success) :=
    fun r hr success heq => hr success (hout heq)
  have hlost : ∀ q, Lost id q → Lost out (q >>= fun r => pure (out r)) := fun q hq =>
    before_bind hq (fun _ _ h => h) hpost
  refine before_bind hp ?_ hpost
  rintro (_ | _ | _ | ⟨key, bytes⟩ | _) k hk
  · exact hk
  · exact hk
  · exact hk
  · obtain ⟨m, hm, hkey, hbytes, ⟨k', hk', hwon, hlostRace, herror⟩, hfail⟩ := hk
    refine ⟨m, hm, hkey, hbytes, ⟨fun r => k' r >>= fun r => pure (out r), ?_, ?_, ?_, ?_⟩, ?_⟩
    · exact congrArg (fun q => q >>= fun r => pure (out r)) hk'
    · exact fun e => congrArg (fun q => q >>= fun r => pure (out r)) (hwon e)
    · exact hlost _ hlostRace
    · exact fun e => congrArg (fun q => q >>= fun r => pure (out r)) (herror e)
    · exact fun e => hlost _ (hfail e)
  · exact hk

def AfterLoad (sha : Sha256) (pkey : String) (p : StoreM PushOutcome) :
    Except StoreError (Option (ETag × ByteArray)) → Prop
  | .error _ => Lost .published p
  | .ok none => Publishing sha pkey ⟨none, none⟩ .published p
  | .ok (some (e, body)) => Publishing sha pkey ⟨some e, pointerDigest body⟩ .published p

theorem publishing_receive (sha : Sha256) (git : GitTool) (options : HydrationOptions)
    (pkey : String) (receive : ParentState → Option Workspace) (repo : HydratedRepo)
    (parentState : ParentState) :
    Publishing sha pkey parentState.base .published
      (match receive parentState with
        | none => pure .receiveFailed
        | some ws => do
          let limits := ⟨repo.hydratedBytes, options.maxPackBytes, options.maxRepoBytes⟩
          let result ← (casPublish sha git pkey ws parentState limits).run
          pure (.published result) : StoreM PushOutcome) := by
  cases receive parentState with
  | none => exact nofun
  | some ws =>
    exact publishing_map (fun _ _ => PushOutcome.published.inj)
      (publishing_casPublish sha git pkey ws parentState _)

theorem never_loadFrom (sha : Sha256) (e : ETag) (body : ByteArray) :
    Never Op.publishes (fun r => ∀ loaded, r = .ok loaded →
        ∃ digest manifest, pointerDigest body = some digest ∧ loaded = some (e, digest, manifest))
      (loadFrom sha (some (e, body))) := by
  cases hdigest : pointerDigest body with
  | none =>
    simp only [loadFrom, hdigest]
    exact nofun
  | some digest =>
    simp only [loadFrom, hdigest]
    refine before_quietBind (quiet_of_readOnly (readOnly_loadManifest sha digest)) (fun _ => nofun)
      fun manifest => ?_
    rintro loaded ⟨⟩
    exact ⟨digest, manifest, rfl, rfl⟩

theorem never_hydrateLoaded (sha : Sha256) (git : GitTool) (options : HydrationOptions) (e : ETag)
    (body : ByteArray) :
    Never Op.publishes (fun r => ∀ repo parentState, r = .ok (repo, parentState) →
        parentState.base = ⟨some e, pointerDigest body⟩)
      (do
        let loaded ← loadFrom sha (some (e, body))
        hydrateLoaded sha git options loaded : ResultM HydrateError _) := by
  refine before_exceptBind (never_mono (never_loadFrom sha e body) ?_) fun loaded
    (h : ∃ digest manifest, pointerDigest body = some digest ∧
      loaded = some (e, digest, manifest)) => ?_
  · rintro (e' | loaded) h
    · exact nofun
    · exact h loaded rfl
  · obtain ⟨digest, manifest, hdigest, rfl⟩ := h
    refine before_quietBind (quiet_of_readOnly (readOnly_materializeManifest sha git options manifest))
      (fun _ => nofun) fun repo => ?_
    rintro repo' parentState ⟨⟩
    rw [hdigest]
    rfl

theorem push_requests (sha : Sha256) (git : GitTool) (options : HydrationOptions) (pkey : String)
    (receive : ParentState → Option Workspace) :
    ∃ k, push sha git options pkey receive = .call (.getPointer pkey) k ∧
      ∀ r, AfterLoad sha pkey (k r) r := by
  refine ⟨_, rfl, ?_⟩
  rintro (e | _ | ⟨e, body⟩)
  · exact nofun
  · exact publishing_receive sha git options pkey receive ⟨0, 0⟩ .fresh
  · refine before_bind (never_hydrateLoaded sha git options e body) (fun _ _ h => h.elim) ?_
    rintro (e' | ⟨repo, parentState⟩) hbase
    · exact nofun
    · rw [← hbase repo parentState rfl]
      exact publishing_receive sha git options pkey receive repo parentState

end Vingilot.Git
