import Vingilot.Git.Readable

/-! # A first push

One branch and a pack of one commit. The index of a pack takes 1072 bytes and 28 more for each
object, so it can be larger than the pack.
-/

namespace Vingilot.Git

open Program

/-! ## Before anything is published -/

def Unpublished (sha : Sha256) (st : Store × List Turn) : Prop :=
  st.2 = [] ∧ st.1.pointers = ∅ ∧
    ∀ bytes, st.1.objects.get? (contentKey sha "manifests" bytes) = none

variable {etag : ByteArray → ETag} {sha : Sha256}

theorem unpublished_quiet {α : Type} {p : StoreM α} (hp : Quiet p) {st : Store × List Turn}
    (h : Unpublished sha st) : Unpublished sha (exec (Store.turn etag) st p).2 := by
  refine exec_avoids (Unpublished sha) ?_ hp h
  rintro ⟨s, turns⟩ op hop ⟨rfl, hpointers, hobjects⟩
  cases op with
  | head key => exact ⟨rfl, by simpa [Store.turn] using hpointers, by simpa [Store.turn] using hobjects⟩
  | get key => exact ⟨rfl, by simpa [Store.turn] using hpointers, by simpa [Store.turn] using hobjects⟩
  | getPointer key => exact ⟨rfl, hpointers, hobjects⟩
  | putNew key bytes =>
    refine ⟨rfl, ?_, ?_⟩
    · simp only [Store.turn, handle_putNew_store]
      split_ifs
      · exact hpointers
      · exact hpointers
    · intro bytes'
      simp only [Store.turn, handle_putNew_store]
      split_ifs
      · exact hobjects bytes'
      · rw [Table.get?_set, if_neg]
        · exact hobjects bytes'
        · rintro rfl
          simp [Op.publishes, contentKey, List.isPrefixOf] at hop
  | putPointer key body precond => cases hop

variable {s : Store}

theorem exec_putImmutable_new {kind : String} {bytes : ByteArray}
    (h : s.objects.get? (contentKey sha kind bytes) = none) :
    exec (Store.turn etag) (s, []) (putImmutable sha kind bytes) =
      (.ok (contentKey sha kind bytes),
        { s with objects := s.objects.set (contentKey sha kind bytes) bytes }, []) := by
  refine exec_exceptBind_ok.mpr ⟨(), _, ?_, rfl⟩
  change ((s.handle etag (.putNew _ bytes)).1, (s.handle etag (.putNew _ bytes)).2, []) = _
  rw [handle_putNew_reply, handle_putNew_store, if_neg (by simp [h])]
  rfl

theorem exec_putPointer_new {pkey : String} {body : ByteArray} (h : s.pointers = ∅) :
    exec (Store.turn etag) (s, []) (putPointer pkey body .ifNoneMatchStar) =
      (.ok (.won (etag body)), { s with pointers := s.pointers.set pkey body }, []) := by
  have hholds : Precond.holds etag (s.pointers.get? pkey) .ifNoneMatchStar = true := by
    rw [h]
    rfl
  change ((s.handle etag (.putPointer pkey body .ifNoneMatchStar)).1,
    (s.handle etag (.putPointer pkey body .ifNoneMatchStar)).2, []) = _
  rw [handle_putPointer, if_pos hholds]
  rfl

theorem exec_commitManifest {pkey : String} {m : Manifest} (hvalid : m.Valid)
    (h : Unpublished sha (s, [])) :
    ∃ s', exec (Store.turn etag) (s, []) (commitManifest sha pkey .fresh m) =
        (.ok ⟨m, contentKey sha "manifests" m.canonicalBytes⟩, s', []) ∧
      s'.objects.get? (contentKey sha "manifests" m.canonicalBytes) = some m.canonicalBytes := by
  obtain ⟨-, hpointers, hobjects⟩ := h
  let s₁ : Store :=
    { s with objects := s.objects.set (contentKey sha "manifests" m.canonicalBytes) m.canonicalBytes }
  refine ⟨{ s₁ with pointers := s₁.pointers.set pkey (m.body sha) }, ?_, ?_⟩
  · refine exec_exceptBind_ok.mpr ⟨(), (s, []), ?_, ?_⟩
    · rw [exec_ofExcept_ok, (validate_ok_iff m).mpr hvalid]
      exact ⟨rfl, rfl⟩
    · refine exec_exceptBind_ok.mpr ⟨_, (s₁, []),
        exec_mapError_ok.mpr (exec_putImmutable_new (hobjects m.canonicalBytes)), ?_⟩
      refine exec_exceptBind_ok.mpr ⟨sha.hex m.canonicalBytes, (s₁, []), ?_, ?_⟩
      · rw [digestFromManifestKey_contentKey]
        rfl
      · refine exec_exceptBind_ok.mpr ⟨.won (etag (m.body sha)), _, ?_, rfl⟩
        exact exec_mapError_ok.mpr (exec_putPointer_new hpointers)
  · exact (Table.get?_set _ _ _ _).trans (if_pos rfl)

/-! ## The pack and its index -/

def branchOid : String := "1f569bfd6bd8578bce2743bb195d0c068559d799"

/-- The pack of the commit `branchOid` and its empty tree. -/
def commitPack : ByteArray :=
  ⟨#[80, 65, 67, 75, 0, 0, 0, 2, 0, 0, 0, 2, 148, 7, 120, 156, 43, 41, 74, 77, 85, 48, 73, 178, 48,
      50, 77, 73, 54, 51, 49, 74, 78, 50, 75, 77, 178, 76, 52, 48, 51, 72, 53, 53, 73, 74, 179, 72,
      49, 179, 52, 178, 176, 72, 75, 74, 77, 53, 177, 52, 48, 225, 74, 44, 45, 201, 200, 47, 82, 72,
      84, 176, 73, 116, 72, 180, 83, 48, 52, 55, 128, 2, 5, 109, 16, 201, 149, 156, 159, 155, 155, 89,
      82, 146, 138, 71, 9, 87, 5, 23, 0, 117, 193, 30, 114, 32, 120, 156, 3, 0, 0, 0, 0, 1, 89, 71,
      166, 61, 4, 176, 145, 225, 51, 53, 114, 240, 94, 17, 231, 104, 10, 16, 86, 227]⟩

/-- How many objects begin with at most each byte: the commit begins with `1f`, the tree with `4b`. -/
def indexCounts : List UInt8 := List.replicate 31 0 ++ (List.replicate 44 1 ++ List.replicate 181 2)

def indexFanout : List UInt8 := indexCounts.flatMap fun n => [0, 0, 0, n]

/-- What `index-pack` writes for the pack: the names of the objects, their checksums and offsets
and the trailer follow the counts. -/
def commitIndexBytes : List UInt8 :=
  [255, 116, 79, 99, 0, 0, 0, 2] ++ (indexFanout ++
    [31, 86, 155, 253, 107, 216, 87, 139, 206, 39, 67, 187, 25, 93, 12, 6, 133, 89, 215, 153, 75, 130,
      93, 198, 66, 203, 110, 185, 160, 96, 229, 75, 248, 214, 146, 136, 251, 238, 73, 4, 135, 94, 4,
      71, 194, 182, 66, 88, 0, 0, 0, 12, 0, 0, 0, 105, 89, 71, 166, 61, 4, 176, 145, 225, 51, 53, 114,
      240, 94, 17, 231, 104, 10, 16, 86, 227, 137, 153, 127, 67, 148, 182, 1, 221, 16, 92, 128, 250,
      122, 231, 229, 207, 229, 186, 28, 157])

def commitIndex : ByteArray := ⟨commitIndexBytes.toArray⟩

theorem commitPack_size : commitPack.size = 134 := by decide +kernel

theorem indexFanout_length : indexFanout.length = 1024 := by
  have hfour : ∀ ns : List UInt8, (ns.flatMap fun n => [0, 0, 0, n]).length = 4 * ns.length := by
    intro ns
    induction ns with
    | nil => rfl
    | cons n ns ih =>
      rw [List.flatMap_cons, List.length_append, ih, List.length_cons]
      simp only [List.length_cons, List.length_nil]
      omega
  rw [indexFanout, hfour, indexCounts, List.length_append, List.length_append,
    List.length_replicate, List.length_replicate, List.length_replicate]

theorem commitIndex_size : commitIndex.size = 1128 := by
  change commitIndexBytes.length = 1128
  rw [commitIndexBytes, List.length_append, List.length_append, indexFanout_length]
  rfl

def commitGit : GitTool := ⟨fun pack => if pack = commitPack then some commitIndex else none⟩

def packDigest : String := "07820ef7f669158a39a662dc8a8752171331be6c7b3c1d7fe5fd7e45416fde8f"

/-- The digests of the pack and of the first manifest. -/
def commitSha : Sha256 where
  hex bytes :=
    if bytes = commitPack then packDigest
    else "4a11ffb12ab1aaae41a848c7199758e6443a9f7dfb54f0eda051dd3c6b59bf2c"
  hex_isDigest bytes := by split_ifs <;> decide

theorem indexPack_commitPack : commitGit.indexPack commitPack = some commitIndex := by
  simp only [commitGit, if_true]

theorem hex_commitPack : commitSha.hex commitPack = packDigest := by
  simp only [commitSha, if_true]

/-! ## The push -/

def firstRepo : Workspace where
  refsStdout := some (s!"refs/heads/main {branchOid}\n").toUTF8
  headStdout := some "refs/heads/main\n"
  compactionPermit := true
  objectCounts := some (2, 0)
  compactedPacks := none
  compactionCalls := 0
  deltaPack := some commitPack

def firstRefs : OrdMap String String :=
  ⟨[("refs/heads/main", branchOid)], List.pairwise_singleton _ _⟩

def firstUpdate : HookRefUpdate :=
  ⟨"0000000000000000000000000000000000000000", branchOid, "refs/heads/main"⟩

theorem snapshot_firstRepo :
    snapshotWorkspaceState firstRepo = .ok (firstRefs, "refs/heads/main") := by decide +kernel

theorem admitted_firstRepo :
    AdmittedPush ParentState.fresh.parent firstRefs "refs/heads/main" [firstUpdate] where
  shortParent := ⟨by decide, List.forall_mem_nil _⟩
  hook := by decide +kernel
  refs := by
    intro r hr
    rw [List.mem_singleton.mp hr]
    exact Or.inr ⟨firstUpdate, List.mem_singleton_self _, rfl⟩
  head := Or.inr (Or.inl rfl)

def firstManifest (sha : Sha256) : Manifest :=
  ⟨manifestVersion, "refs/heads/main", firstRefs, [contentKey sha "packs" commitPack], none⟩

theorem valid_firstManifest (sha : Sha256) : (firstManifest sha).Valid where
  packCount := by
    change 1 ≤ maxManifestPacks
    decide
  refCount := by
    change 1 ≤ maxManifestRefs
    decide
  head := by
    change isSafeRefname "refs/heads/main" = true
    decide
  refs := by
    intro r hr
    rw [List.mem_singleton.mp hr]
    decide
  packs := by
    intro key hkey
    rw [List.mem_singleton.mp hkey, isPackKey_iff]
    exact ⟨sha.hex commitPack, rfl, sha.hex_isDigest commitPack⟩
  parent := nofun

variable {options : HydrationOptions}

/-- The limits of a relay that takes the pack. -/
structure TakesCommit (options : HydrationOptions) : Prop where
  pack : commitPack.size ≤ options.maxPackBytes
  repo : commitPack.size ≤ options.maxRepoBytes

theorem TakesCommit.capture (h : TakesCommit options) :
    capturePack firstRepo firstRefs options.maxPackBytes = .ok (some commitPack) := by
  have hentries : firstRefs.entries.isEmpty = false := rfl
  have hpack := h.pack
  simp only [capturePack, hentries, firstRepo]
  rw [if_neg (by simp), if_neg (by omega), if_neg (by rw [commitPack_size]; decide)]

theorem compose_firstManifest (sha : Sha256) :
    composeAfter ParentState.fresh.parent none "refs/heads/main" firstRefs
      (some (contentKey sha "packs" commitPack)) = firstManifest sha := by
  have hpacks : sortDedup [contentKey sha "packs" commitPack] =
      [contentKey sha "packs" commitPack] := sortDedup_of_sorted (List.pairwise_singleton _ _)
  simp only [composeAfter, ParentState.fresh, List.not_mem_nil, if_false, List.nil_append, hpacks]
  rfl

theorem TakesCommit.exec_publishDelta (h : TakesCommit options) (sha : Sha256) (git : GitTool)
    (etag : ByteArray → ETag) :
    ∃ s, exec (Store.turn etag) (.empty, [])
        (publishDelta sha git firstRepo .fresh (options.limits 0) firstRefs
          "refs/heads/main" none) = (.ok (firstManifest sha), s, []) ∧
      Unpublished sha (s, []) ∧
      s.objects.get? (contentKey sha "packs" commitPack) = some commitPack := by
  let key := contentKey sha "packs" commitPack
  let s₁ : Store := { Store.empty with objects := Store.empty.objects.set key commitPack }
  have hput : exec (Store.turn etag) (.empty, []) (putPack sha commitPack) = (.ok key, s₁, []) :=
    exec_putImmutable_new rfl
  have hfresh : Unpublished sha (s₁, []) := by
    have hquiet := @unpublished_quiet etag sha _ _ (quiet_putPack sha commitPack) (.empty, [])
      ⟨rfl, rfl, fun _ => rfl⟩
    rwa [hput] at hquiet
  rcases hidx : exec (Store.turn etag) (s₁, []) (writeIdxSidecar git key commitPack) with
    ⟨⟨⟩, s₂, turns⟩
  have hfresh₂ := @unpublished_quiet etag sha _ _ (quiet_writeIdxSidecar git key commitPack) _ hfresh
  rw [hidx] at hfresh₂
  obtain rfl : turns = [] := hfresh₂.1
  refine ⟨s₂, ?_, hfresh₂, ?_⟩
  · refine exec_exceptBind_ok.mpr ⟨some commitPack, (.empty, []), ?_, ?_⟩
    · rw [exec_ofExcept_ok]
      exact ⟨h.capture, rfl⟩
    · have hrepo : ¬ (options.limits 0).maxRepoBytes <
          (options.limits 0).parentHydratedBytes + commitPack.size := by
        have hle := h.repo
        simp only [HydrationOptions.limits]
        omega
      have hbound : ¬ u64Bound ≤ (options.limits 0).parentHydratedBytes + commitPack.size := by
        change ¬ u64Bound ≤ 0 + commitPack.size
        rw [commitPack_size]
        decide
      dsimp only
      rw [if_neg (by decide), if_neg hbound, if_neg hrepo]
      refine exec_exceptBind_ok.mpr ⟨key, (s₁, []), exec_mapError_ok.mpr hput, ?_⟩
      refine exec_exceptBind_ok.mpr ⟨(), (s₂, []), ?_, ?_⟩
      · rw [exec_lift, hidx]
      · exact congrArg (fun m => (Except.ok m, s₂, ([] : List Turn))) (compose_firstManifest sha)
  · exact grown_of_exec hidx _ _ ((Table.get?_set _ _ _ _).trans (if_pos rfl))

/-- Whatever the tool makes of the pack, the push succeeds. -/
theorem TakesCommit.push (h : TakesCommit options) (sha : Sha256) (git : GitTool)
    (etag : ByteArray → ETag) (pkey : String) :
    ∃ s, exec (Store.turn etag) (.empty, [])
        (casPublish sha git pkey firstRepo .fresh (options.limits 0)) =
          (.ok ⟨firstManifest sha, contentKey sha "manifests" (firstManifest sha).canonicalBytes⟩,
            s, []) ∧
      NoCollision sha firstRepo
        ⟨firstManifest sha, contentKey sha "manifests" (firstManifest sha).canonicalBytes⟩ s ∧
      s.objects.get? (contentKey sha "packs" commitPack) = some commitPack := by
  obtain ⟨s₂, hdelta, hfresh, hpack⟩ := h.exec_publishDelta sha git etag
  obtain ⟨s₃, hcommit, hmanifest⟩ :=
    @exec_commitManifest etag sha s₂ pkey _ (valid_firstManifest sha) hfresh
  have hstored : s₃.objects.get? (contentKey sha "packs" commitPack) = some commitPack :=
    grown_of_exec hcommit _ _ hpack
  refine ⟨s₃, ?_, ⟨?_, ?_⟩, hstored⟩
  · refine exec_exceptBind_ok.mpr ⟨firstManifest sha, (s₂, []), ?_, hcommit⟩
    refine exec_exceptBind_ok.mpr ⟨(firstRefs, "refs/heads/main"), (.empty, []), ?_, ?_⟩
    · rw [exec_ofExcept_ok]
      exact ⟨snapshot_firstRepo, rfl⟩
    · have hhead : resolvePublishedHead firstRefs "refs/heads/main" "" = "refs/heads/main" := by
        decide
      refine exec_exceptBind_ok.mpr ⟨none, (.empty, []), rfl, ?_⟩
      rw [← hhead] at hdelta
      exact hdelta
  · intro bytes hbytes
    exact Option.some.inj (hbytes.symm.trans hmanifest)
  · rintro pack (hdeltaPack | ⟨compacted, hcompacted, -⟩) bytes hbytes
    · cases hdeltaPack
      exact Option.some.inj (hbytes.symm.trans hstored)
    · cases hcompacted

/-- `BUZZ_GIT_MAX_PACK_BYTES=1024`: the pack fits and its index does not, so nobody can hydrate the
repository after the push. -/
theorem small_limit_push_is_unreadable :
    commitPack.size = 134 ∧ commitGit.indexPack commitPack = some commitIndex ∧
    commitIndex.size = 1128 ∧
    ∀ (sha : Sha256) (etag : ByteArray → ETag) (pkey : String),
      exec (Store.turn etag) (.empty, []) (hydrateForWrite sha commitGit ⟨1024, 2048⟩ pkey) =
          (.ok (⟨0, 0⟩, .fresh), .empty, []) ∧
        AdmittedPush ParentState.fresh.parent firstRefs "refs/heads/main" [firstUpdate] ∧
        ∃ success s, exec (Store.turn etag) (.empty, []) (casPublish sha commitGit pkey firstRepo
              .fresh (HydrationOptions.limits ⟨1024, 2048⟩ 0)) = (.ok success, s, []) ∧
          NoCollision sha firstRepo success s ∧
          ¬ Hydrates sha commitGit etag ⟨1024, 2048⟩ pkey s := by
  refine ⟨commitPack_size, indexPack_commitPack, commitIndex_size, ?_⟩
  intro sha etag pkey
  have htakes : TakesCommit ⟨1024, 2048⟩ := by
    constructor
    · rw [commitPack_size]
      decide
    · rw [commitPack_size]
      decide
  obtain ⟨s, hpublish, hfree, hstored⟩ := htakes.push sha commitGit etag pkey
  refine ⟨rfl, admitted_firstRepo, _, s, hpublish, hfree, ?_⟩
  obtain ⟨-, -, -, -, hpublished, -⟩ := casPublish_ok hpublish hfree
  rw [hpublished.hydrates_iff]
  rintro ⟨-, hreadable, -⟩
  obtain ⟨bytes, -, hbytes, -, idx, hidx, hfits⟩ := hreadable _ (List.mem_singleton_self _)
  cases hstored.symm.trans hbytes
  cases indexPack_commitPack.symm.trans hidx
  rw [commitIndex_size] at hfits
  exact absurd hfits (by decide)

/-- With the default limits the same push can be read. -/
theorem published_repo_hydrates_iff_first :
    ∃ success s, exec (Store.turn raceETag) (.empty, []) (casPublish commitSha commitGit raceKey
          firstRepo .fresh (HydrationOptions.limits ⟨524288000, 1048576000⟩ 0)) =
        (.ok success, s, []) ∧
      success.manifest.refs.entries = [("refs/heads/main", branchOid)] ∧
      success.manifest.packs = ["packs/" ++ packDigest] ∧
      Hydrates commitSha commitGit raceETag ⟨524288000, 1048576000⟩ raceKey s := by
  have htakes : TakesCommit ⟨524288000, 1048576000⟩ := by
    constructor
    · rw [commitPack_size]
      decide
    · rw [commitPack_size]
      decide
  obtain ⟨s, hpublish, hfree, -⟩ := htakes.push commitSha commitGit raceETag raceKey
  have hdelta : deltaPack firstRepo firstRefs (HydrationOptions.limits ⟨524288000, 1048576000⟩ 0) =
      some commitPack := by
    rw [deltaPack]
    exact congrArg (fun r : Except CasError (Option ByteArray) => r.toOption.getD none) htakes.capture
  have hkey : contentKey commitSha "packs" commitPack = "packs/" ++ packDigest :=
    congrArg (fun hex => "packs/" ++ hex) hex_commitPack
  refine ⟨_, s, hpublish, rfl, congrArg (fun key => [key]) hkey, ?_⟩
  rw [published_repo_hydrates_iff commitSha commitGit raceETag ⟨524288000, 1048576000⟩ raceKey
    (.empty, []) ⟨0, 0⟩ .fresh .empty [] firstRepo firstRefs "refs/heads/main" [firstUpdate] _ s []
    rfl snapshot_firstRepo admitted_firstRepo hpublish hfree]
  intro _ pack hpack
  cases hdelta.symm.trans hpack
  refine ⟨commitIndex, indexPack_commitPack, ?_⟩
  rw [commitIndex_size]
  decide

end Vingilot.Git
