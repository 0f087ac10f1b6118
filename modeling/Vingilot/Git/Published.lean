import Vingilot.Git.Turns

/-! # What a push that succeeds has done

Whatever other parties do in between and whichever requests fail, the new manifest is given by
the workspace, the parent and the uploads of compaction that arrive.
-/

namespace Vingilot.Git

open Program

variable {etag : ByteArray → ETag} {sha : Sha256} {git : GitTool}

/-! ## Puts -/

def firstFault (turns : List Turn) : Option Fault := turns.head?.bind Turn.fault

def arrive : List Turn → List ByteArray → Bool
  | _, [] => true
  | turns, _ :: packs => (firstFault turns).isNone && arrive turns.tail.tail packs

theorem exec_putNew (s : Store) (turns : List Turn) (key : String) (bytes : ByteArray) :
    ∃ s', exec (Store.turn etag) (s, turns) (putNew key bytes) =
        (if firstFault turns = none then .ok () else .error (.backend "transport"), s', turns.tail) ∧
      (firstFault turns = none → (s'.objects.get? key).isSome) := by
  have hstored : ∀ s : Store, ((s.handle etag (.putNew key bytes)).2.objects.get? key).isSome := by
    intro s
    rw [handle_putNew_store]
    split_ifs with htaken
    · exact htaken
    · rw [Table.get?_set, if_pos rfl]
      rfl
  have hreply : ∀ s : Store, (s.handle etag (.putNew key bytes)).1 = .ok () :=
    fun s => handle_putNew_reply etag s key bytes
  rcases turns with _ | ⟨⟨others, _ | _ | _⟩, turns⟩
  · exact ⟨_, Prod.ext (hreply s) rfl, fun _ => hstored s⟩
  · exact ⟨_, Prod.ext (hreply _) rfl, fun _ => hstored _⟩
  · exact ⟨_, rfl, nofun⟩
  · exact ⟨_, rfl, nofun⟩

theorem exec_tryPutIdx (s : Store) (turns : List Turn) {digest : String} {pack idx : ByteArray}
    (hindex : git.indexPack pack = some idx) (hdigest : isDigestText digest = true) :
    ∃ s', exec (Store.turn etag) (s, turns) (tryPutIdx git digest pack) = ((), s', turns.tail) := by
  obtain ⟨s', hput, -⟩ := @exec_putNew etag s turns ("idx/" ++ digest) idx
  refine ⟨s', ?_⟩
  have hputIdx : (exec (Store.turn etag) (s, turns) (putIdx digest idx)).2 = (s', turns.tail) := by
    have hkey : exec (Store.turn etag) (s, turns) (idxKeyForPackDigest digest) =
        (.ok ("idx/" ++ digest), s, turns) := by
      rw [idxKeyForPackDigest, if_neg (by simp [hdigest])]
      rfl
    rw [putIdx, exec_exceptBind, hkey]
    simp only [exec_exceptBind, hput]
    split_ifs <;> rfl
  simp only [tryPutIdx, hindex]
  rw [exec_bind]
  exact Prod.ext rfl hputIdx

theorem digestFromPackKey_contentKey (pack : ByteArray) :
    digestFromPackKey (contentKey sha "packs" pack) = .ok (sha.hex pack) := by
  have hkey : contentKey sha "packs" pack = "packs/" ++ sha.hex pack := rfl
  rw [digestFromPackKey, hkey, stripPrefix_append]
  exact if_pos (isDigestText_of_digest (sha.hex_isDigest pack))

theorem exec_putImmutable (s : Store) (turns : List Turn) (kind : String) (bytes : ByteArray) :
    ∃ s', exec (Store.turn etag) (s, turns) (putImmutable sha kind bytes) =
        (if firstFault turns = none then .ok (contentKey sha kind bytes)
          else .error (.backend "transport"), s', turns.tail) ∧
      (firstFault turns = none → (s'.objects.get? (contentKey sha kind bytes)).isSome) := by
  obtain ⟨s', hput, hstored⟩ := @exec_putNew etag s turns (contentKey sha kind bytes) bytes
  refine ⟨s', ?_, hstored⟩
  rw [putImmutable, exec_exceptBind, hput]
  split_ifs <;> rfl

variable {st₀ : Store × List Turn}

theorem putImmutable_ok {st : Store × List Turn} {kind key : String} {bytes : ByteArray}
    (h : exec (Store.turn etag) st₀ (mapError CasError.backend (putImmutable sha kind bytes)) =
      (.ok key, st)) :
    firstFault st₀.2 = none ∧ key = contentKey sha kind bytes ∧ st.2 = st₀.2.tail ∧
      (st.1.objects.get? key).isSome := by
  obtain ⟨s, turns⟩ := st₀
  obtain ⟨s', hput, hstored⟩ := @exec_putImmutable etag sha s turns kind bytes
  rw [exec_mapError_ok, hput] at h
  split_ifs at h with hfault
  · cases h
    exact ⟨hfault, rfl, rfl, hstored hfault⟩
  · cases h

theorem Store.Grown.isSome {s s' : Store} (h : s.Grown s') {key : String}
    (hkey : (s.objects.get? key).isSome) : (s'.objects.get? key).isSome := by
  obtain ⟨bytes, hbytes⟩ := Option.isSome_iff_exists.mp hkey
  rw [h _ _ hbytes]
  rfl

theorem uploadCompactedPacks_ok {packs : List ByteArray}
    (hindex : ∀ pack ∈ packs, (git.indexPack pack).isSome) {s : Store} {turns : List Turn}
    {calls : Nat} {keys : List String} {st : Store × List Turn}
    (h : exec (Store.turn etag) (s, turns) (uploadCompactedPacks sha git calls packs) =
      (.ok keys, st)) :
    2 * packs.length ≤ calls ∧ arrive turns packs = true ∧
      keys = packs.map (contentKey sha "packs") ∧
        ∀ pack ∈ packs, (st.1.objects.get? (contentKey sha "packs" pack)).isSome := by
  induction packs generalizing s turns calls keys with
  | nil =>
    cases h
    exact ⟨Nat.zero_le _, rfl, rfl, nofun⟩
  | cons pack packs ih =>
    obtain ⟨idx, hidx⟩ := Option.isSome_iff_exists.mp (hindex pack List.mem_cons_self)
    unfold uploadCompactedPacks at h
    split_ifs at h with hzero hone
    · cases h
    · obtain ⟨key, t, -, h⟩ := exec_exceptBind_ok.mp h
      obtain ⟨digest, u, -, h⟩ := exec_exceptBind_ok.mp h
      cases h
    · obtain ⟨key, ⟨t, turns'⟩, hput, h⟩ := exec_exceptBind_ok.mp h
      obtain ⟨digest, u, hdigest, h⟩ := exec_exceptBind_ok.mp h
      obtain ⟨⟨⟩, v, hidxPut, h⟩ := exec_exceptBind_ok.mp h
      obtain ⟨keys', w, hrest, h⟩ := exec_exceptBind_ok.mp h
      cases h
      obtain ⟨hfault, rfl, rfl, hstored⟩ := putImmutable_ok hput
      rw [exec_ofExcept, digestFromPackKey_contentKey] at hdigest
      cases hdigest
      obtain ⟨t', htry⟩ := @exec_tryPutIdx etag git t turns.tail _ _ _ hidx
        (isDigestText_of_digest (sha.hex_isDigest pack))
      rw [exec_lift, htry] at hidxPut
      cases hidxPut
      obtain ⟨hcalls, harrive, rfl, hpacks⟩ :=
        ih (fun p hp => hindex p (List.mem_cons_of_mem _ hp)) hrest
      refine ⟨by simp only [List.length_cons]; omega, ?_, rfl, ?_⟩
      · simp only [arrive, hfault, Option.isNone_none, Bool.true_and]
        exact harrive
      · intro p hp
        rcases List.mem_cons.mp hp with rfl | hp
        · exact ((grown_of_exec htry).trans (grown_of_exec hrest)).isSome hstored
        · exact hpacks p hp

theorem exec_uploadCompactedPacks {packs : List ByteArray}
    (hindex : ∀ pack ∈ packs, (git.indexPack pack).isSome) (s : Store) (turns : List Turn)
    {calls : Nat} (hcalls : 2 * packs.length ≤ calls) (harrive : arrive turns packs = true) :
    ∃ st, exec (Store.turn etag) (s, turns) (uploadCompactedPacks sha git calls packs) =
      (.ok (packs.map (contentKey sha "packs")), st) := by
  induction packs generalizing s turns calls with
  | nil => exact ⟨_, rfl⟩
  | cons pack packs ih =>
    obtain ⟨idx, hidx⟩ := Option.isSome_iff_exists.mp (hindex pack List.mem_cons_self)
    simp only [arrive, Bool.and_eq_true, Option.isNone_iff_eq_none] at harrive
    simp only [List.length_cons] at hcalls
    obtain ⟨s₁, hput, -⟩ := @exec_putImmutable etag sha s turns "packs" pack
    rw [if_pos harrive.1] at hput
    obtain ⟨s₂, htry⟩ := @exec_tryPutIdx etag git s₁ turns.tail _ _ _ hidx
      (isDigestText_of_digest (sha.hex_isDigest pack))
    obtain ⟨st, hrest⟩ := ih (fun p hp => hindex p (List.mem_cons_of_mem _ hp)) s₂ turns.tail.tail
      (Nat.le_sub_of_add_le (by omega : 2 * packs.length + 2 ≤ calls)) harrive.2
    refine ⟨st, ?_⟩
    unfold uploadCompactedPacks
    rw [if_neg (by omega)]
    refine exec_exceptBind_ok.mpr ⟨_, _, exec_mapError_ok.mpr hput, ?_⟩
    refine exec_exceptBind_ok.mpr ⟨sha.hex pack, (s₁, turns.tail), ?_, ?_⟩
    · rw [exec_ofExcept, digestFromPackKey_contentKey]
    · rw [if_neg (by omega)]
      refine exec_exceptBind_ok.mpr ⟨(), (s₂, turns.tail.tail), ?_, ?_⟩
      · rw [exec_lift, htry]
      · exact exec_exceptBind_ok.mpr ⟨_, _, hrest, rfl⟩

/-! ## Compaction -/

theorem checkCompactedPacks_ok {limits : PublishLimits} {packs : List ByteArray} {total : Nat}
    (h : checkCompactedPacks git limits total packs = .ok ()) :
    (∀ pack ∈ packs, pack.size ≤ limits.maxPackBytes ∧ IndexFits git limits.maxPackBytes pack) ∧
      (packs = [] ∨ total + (packs.map ByteArray.size).sum ≤ limits.maxRepoBytes ∧
        total + (packs.map ByteArray.size).sum < u64Bound) := by
  induction packs generalizing total with
  | nil => exact ⟨nofun, Or.inl rfl⟩
  | cons pack packs ih =>
    unfold checkCompactedPacks at h
    split_ifs at h with hsize hoverflow hrepo
    split at h
    · cases h
    · next idx hidx =>
      split_ifs at h with hidxSize
      obtain ⟨hpacks, hsum⟩ := ih h
      refine ⟨?_, Or.inr ?_⟩
      · intro p hp
        rcases List.mem_cons.mp hp with rfl | hp
        · exact ⟨not_lt.mp hsize, idx, hidx, not_lt.mp hidxSize⟩
        · exact hpacks p hp
      · simp only [List.map_cons, List.sum_cons]
        rcases hsum with rfl | hsum
        · simp only [List.map_nil, List.sum_nil]
          omega
        · omega

theorem captureCompactedPacks_ok {ws : Workspace} {refs : OrdMap String String}
    {limits : PublishLimits} {packs : List ByteArray}
    (h : captureCompactedPacks git ws refs limits = .ok packs) :
    checkCompactedPacks git limits 0 packs = .ok () ∧
      ∀ pack ∈ packs, ∃ compacted, ws.compactedPacks = some compacted ∧ pack ∈ compacted := by
  unfold captureCompactedPacks at h
  split_ifs at h
  · cases h
    exact ⟨rfl, nofun⟩
  · obtain ⟨⟨⟩, -, h⟩ := exceptBind_ok.mp h
    split at h
    · cases h
    · next compacted hcompacted =>
      split_ifs at h
      obtain ⟨⟨⟩, hcheck, h⟩ := exceptBind_ok.mp h
      cases h
      exact ⟨hcheck, fun pack hpack => ⟨packs, hcompacted, hpack⟩⟩

/-- The packs that compaction gets to publish. `none` when there is no compaction or when it
fails. -/
def compactedPacks (git : GitTool) (ws : Workspace) (refs : OrdMap String String)
    (limits : PublishLimits) (packsBefore : Nat) (turns : List Turn) : Option (List ByteArray) :=
  if shouldCompact packsBefore packCompactionThreshold && ws.compactionPermit then
    match captureCompactedPacks git ws refs limits with
    | .error _ => none
    | .ok packs =>
      if compactedPackSetIsUsable packsBefore packs.length ∧
          2 * packs.length ≤ ws.compactionCalls ∧ arrive turns packs then some packs
      else none
  else none

theorem compactedPacks_eq_some {ws : Workspace} {refs : OrdMap String String}
    {limits : PublishLimits} {packsBefore : Nat} {turns : List Turn} {packs : List ByteArray} :
    compactedPacks git ws refs limits packsBefore turns = some packs ↔
      shouldCompact packsBefore packCompactionThreshold = true ∧ ws.compactionPermit = true ∧
        captureCompactedPacks git ws refs limits = .ok packs ∧
          compactedPackSetIsUsable packsBefore packs.length = true ∧
            2 * packs.length ≤ ws.compactionCalls ∧ arrive turns packs = true := by
  unfold compactedPacks
  cases shouldCompact packsBefore packCompactionThreshold with
  | false => simp
  | true =>
    cases ws.compactionPermit with
    | false => simp
    | true =>
      cases captureCompactedPacks git ws refs limits with
      | error e => simp
      | ok captured =>
        simp only [Bool.and_self, if_true, Option.ite_none_right_eq_some, Option.some.injEq,
          Except.ok.injEq, true_and]
        constructor
        · rintro ⟨h, rfl⟩
          exact ⟨rfl, h⟩
        · rintro ⟨rfl, h⟩
          exact ⟨h, rfl⟩

variable {parentState : ParentState} {m : Manifest}

section

variable {s : Store} {turns : List Turn} {ws : Workspace} {refs : OrdMap String String}
  {limits : PublishLimits} {packsBefore : Nat} {st : Store × List Turn}

theorem isSome_indexPack {packs : List ByteArray}
    (h : captureCompactedPacks git ws refs limits = .ok packs) :
    ∀ pack ∈ packs, (git.indexPack pack).isSome := by
  intro pack hpack
  obtain ⟨idx, hidx, -⟩ := ((checkCompactedPacks_ok (captureCompactedPacks_ok h).1).1 pack hpack).2
  rw [hidx]
  rfl

theorem attemptCompaction_ok {keys : List String}
    (h : exec (Store.turn etag) (s, turns)
      (attemptCompaction sha git ws refs limits packsBefore) = (some (.ok keys), st)) :
    ∃ packs, compactedPacks git ws refs limits packsBefore turns = some packs ∧
      keys = sortDedup (packs.map (contentKey sha "packs")) ∧
        ∀ pack ∈ packs, (st.1.objects.get? (contentKey sha "packs" pack)).isSome := by
  unfold attemptCompaction at h
  split_ifs at h with hshould hpermit
  · rw [exec_bind] at h
    have hprepare : exec (Store.turn etag) (s, turns)
        (prepareCompaction sha git ws refs limits packsBefore) = (.ok keys, st) := by
      obtain ⟨hresult, hstate⟩ := Prod.mk.inj h
      exact Prod.ext (Option.some.inj hresult) hstate
    obtain ⟨packs, t, hofExcept, hprepare⟩ := exec_exceptBind_ok.mp hprepare
    obtain ⟨hcapture, rfl⟩ := exec_ofExcept_ok.mp hofExcept
    split_ifs at hprepare with husable
    · cases hprepare
    · obtain ⟨packKeys, u, hupload, hprepare⟩ := exec_exceptBind_ok.mp hprepare
      cases hprepare
      obtain ⟨hcalls, harrive, rfl, hstored⟩ :=
        uploadCompactedPacks_ok (isSome_indexPack hcapture) hupload
      refine ⟨packs, compactedPacks_eq_some.mpr ?_, rfl, hstored⟩
      exact ⟨hshould, hpermit, hcapture, by simpa using husable, hcalls, harrive⟩
  · cases h
  · cases h

theorem exec_attemptCompaction {packs : List ByteArray}
    (h : compactedPacks git ws refs limits packsBefore turns = some packs) :
    ∃ st, exec (Store.turn etag) (s, turns)
        (attemptCompaction sha git ws refs limits packsBefore) =
      (some (.ok (sortDedup (packs.map (contentKey sha "packs")))), st) := by
  obtain ⟨hshould, hpermit, hcapture, husable, hcalls, harrive⟩ := compactedPacks_eq_some.mp h
  obtain ⟨st, hupload⟩ :=
    @exec_uploadCompactedPacks etag sha git _ (isSome_indexPack hcapture) s turns _ hcalls harrive
  have hprepare : exec (Store.turn etag) (s, turns)
      (prepareCompaction sha git ws refs limits packsBefore) =
      (.ok (sortDedup (packs.map (contentKey sha "packs"))), st) := by
    refine exec_exceptBind_ok.mpr ⟨packs, (s, turns), ?_, ?_⟩
    · rw [exec_ofExcept, hcapture]
    · rw [if_neg (by simp [husable])]
      exact exec_exceptBind_ok.mpr ⟨_, st, hupload, rfl⟩
  refine ⟨st, ?_⟩
  rw [attemptCompaction, if_pos hshould, if_pos hpermit, exec_bind]
  rw [show exec (Store.turn etag) (s, turns)
    (prepareCompaction sha git ws refs limits packsBefore).run = _ from hprepare]
  rfl

/-! ## The delta pack -/

theorem capturePack_some {maxPackBytes : Nat} {pack : ByteArray}
    (h : capturePack ws refs maxPackBytes = .ok (some pack)) :
    ws.deltaPack = some pack ∧ pack.size ≤ maxPackBytes := by
  unfold capturePack at h
  split_ifs at h
  · cases h
  · split at h
    · cases h
    · next delta hdelta =>
      split_ifs at h with hsize
      · cases h
      · cases h
        exact ⟨hdelta, not_lt.mp hsize⟩

def deltaKeys (sha : Sha256) (parent : List String) : Option ByteArray → List String
  | none => parent
  | some pack => pushNew parent (contentKey sha "packs" pack)

theorem publishDelta_ok {head : String} {failure : Option CasError}
    (h : exec (Store.turn etag) st₀
      (publishDelta sha git ws parentState limits refs head failure) = (.ok m, st)) :
    ∃ pack?, capturePack ws refs limits.maxPackBytes = .ok pack? ∧
      m = ⟨manifestVersion, head, refs, sortDedup (deltaKeys sha parentState.parent.packs pack?),
        parentState.parentDigest⟩ ∧
      ∀ pack, pack? = some pack →
        (st.1.objects.get? (contentKey sha "packs" pack)).isSome ∧
          limits.parentHydratedBytes + pack.size ≤ limits.maxRepoBytes ∧
            limits.parentHydratedBytes + pack.size < u64Bound := by
  obtain ⟨pack?, t, hofExcept, h⟩ := exec_exceptBind_ok.mp h
  obtain ⟨hcapture, rfl⟩ := exec_ofExcept_ok.mp hofExcept
  refine ⟨pack?, hcapture, ?_⟩
  cases pack? with
  | none =>
    cases h
    exact ⟨rfl, nofun⟩
  | some pack =>
    dsimp only at h
    split_ifs at h with hfull hoverflow hrepo
    · cases h
    · cases h
    · cases h
    · obtain ⟨key, ⟨t', turns'⟩, hput, h⟩ := exec_exceptBind_ok.mp h
      obtain ⟨⟨⟩, u, hidx, h⟩ := exec_exceptBind_ok.mp h
      cases h
      obtain ⟨-, rfl, -, hstored⟩ := putImmutable_ok hput
      refine ⟨rfl, ?_⟩
      rintro pack' ⟨⟩
      exact ⟨(grown_of_exec hidx).isSome hstored, not_lt.mp hrepo, not_le.mp hoverflow⟩

/-! ## The new manifest -/

def deltaPack (ws : Workspace) (refs : OrdMap String String) (limits : PublishLimits) :
    Option ByteArray :=
  (capturePack ws refs limits.maxPackBytes).toOption.getD none

def publishedKeys (sha : Sha256) (git : GitTool) (ws : Workspace) (refs : OrdMap String String)
    (parent : List String) (limits : PublishLimits) (turns : List Turn) : List String :=
  match compactedPacks git ws refs limits parent.length turns with
  | some packs => packs.map (contentKey sha "packs")
  | none => deltaKeys sha parent (deltaPack ws refs limits)

structure PacksPut (sha : Sha256) (git : GitTool) (ws : Workspace) (refs : OrdMap String String)
    (parent : List String) (limits : PublishLimits) (turns : List Turn) (s : Store) : Prop where
  compacted : ∀ packs, compactedPacks git ws refs limits parent.length turns = some packs →
    ∀ pack ∈ packs, (s.objects.get? (contentKey sha "packs" pack)).isSome
  delta : compactedPacks git ws refs limits parent.length turns = none →
    ∀ pack, deltaPack ws refs limits = some pack →
      pack.size ≤ limits.maxPackBytes ∧ (s.objects.get? (contentKey sha "packs" pack)).isSome ∧
        limits.parentHydratedBytes + pack.size ≤ limits.maxRepoBytes ∧
          limits.parentHydratedBytes + pack.size < u64Bound

theorem publishDelta_put {head : String} {failure : Option CasError}
    (hnone : compactedPacks git ws refs limits parentState.parent.packs.length turns = none)
    (h : exec (Store.turn etag) st₀
      (publishDelta sha git ws parentState limits refs head failure) = (.ok m, st)) :
    m = ⟨manifestVersion, head, refs,
        sortDedup (publishedKeys sha git ws refs parentState.parent.packs limits turns),
        parentState.parentDigest⟩ ∧
      PacksPut sha git ws refs parentState.parent.packs limits turns st.1 := by
  obtain ⟨pack?, hcapture, hm, hpack⟩ := publishDelta_ok h
  have hdelta : deltaPack ws refs limits = pack? := by
    rw [deltaPack, hcapture]
    rfl
  rw [publishedKeys, hnone, hdelta]
  refine ⟨hm, ?_, ?_⟩
  · rw [hnone]
    exact nofun
  · intro _ pack hsome
    rw [hdelta] at hsome
    rw [hsome] at hcapture
    exact ⟨(capturePack_some hcapture).2, hpack pack hsome⟩

theorem composeManifest_ok
    (h : exec (Store.turn etag) (s, turns) (composeManifest sha git ws parentState limits) =
      (.ok m, st)) : ∃ refs observed, snapshotWorkspaceState ws = .ok (refs, observed) ∧
      m = ⟨manifestVersion, resolvePublishedHead refs observed parentState.parent.head, refs,
        sortDedup (publishedKeys sha git ws refs parentState.parent.packs limits turns),
        parentState.parentDigest⟩ ∧
      PacksPut sha git ws refs parentState.parent.packs limits turns st.1 := by
  obtain ⟨⟨refs, observed⟩, t, hofExcept, h⟩ := exec_exceptBind_ok.mp h
  obtain ⟨hsnapshot, rfl⟩ := exec_ofExcept_ok.mp hofExcept
  obtain ⟨compaction, u, hcompaction, h⟩ := exec_exceptBind_ok.mp h
  rw [exec_lift] at hcompaction
  have hattempt : exec (Store.turn etag) (s, turns) (attemptCompaction sha git ws refs limits
      parentState.parent.packs.length) = (compaction, u) := by
    obtain ⟨hresult, hstate⟩ := Prod.mk.inj hcompaction
    exact Prod.ext (Except.ok.inj hresult) hstate
  refine ⟨refs, observed, hsnapshot, ?_⟩
  by_cases hkeys : ∃ keys, compaction = some (.ok keys)
  · obtain ⟨keys, rfl⟩ := hkeys
    obtain ⟨packs, hpacks, rfl, hstored⟩ := attemptCompaction_ok hattempt
    cases h
    rw [publishedKeys, hpacks]
    refine ⟨?_, ?_, ?_⟩
    · rw [composeCompactedAfter, sortDedup_of_sorted (sorted_sortDedup _)]
    · rintro packs' hpacks'
      cases hpacks.symm.trans hpacks'
      exact hstored
    · rw [hpacks]
      intro hnone
      cases hnone
  · have hnone : compactedPacks git ws refs limits parentState.parent.packs.length turns = none := by
      cases hpacks : compactedPacks git ws refs limits parentState.parent.packs.length turns with
      | none => rfl
      | some packs =>
        obtain ⟨st', hsome⟩ := @exec_attemptCompaction etag sha git s _ _ _ _ _ _ hpacks
        cases hattempt.symm.trans hsome
        exact absurd ⟨_, rfl⟩ hkeys
    rcases compaction with _ | e | keys
    · exact publishDelta_put hnone h
    · exact publishDelta_put hnone h
    · exact absurd ⟨keys, rfl⟩ hkeys

/-! ## The commit -/

theorem putPointer_won {pkey : String} {body : ByteArray} {precond : Precond} {e : ETag}
    (h : exec (Store.turn etag) st₀ (putPointer pkey body precond) = (.ok (.won e), st)) :
    st.1.pointers.get? pkey = some body := by
  obtain ⟨s, -, -, hcases⟩ := @turn_cases etag st₀ (.putPointer pkey body precond)
  obtain ⟨hreply, hstate⟩ := Prod.mk.inj h
  rcases hcases with hfailed | ⟨hhandle, hstore⟩
  · cases hfailed.symm.trans hreply
  · have hwon := hhandle.symm.trans hreply
    have hstore' : st.1 = (s.handle etag (.putPointer pkey body precond)).2 :=
      (congrArg Prod.fst hstate).symm.trans hstore
    rw [handle_putPointer] at hwon hstore'
    split_ifs at hwon hstore'
    · rw [hstore']
      exact (Table.get?_set _ _ _ _).trans (if_pos rfl)
    · cases hwon

theorem commitManifest_ok {pkey : String} {success : CasSuccess}
    (h : exec (Store.turn etag) st₀ (commitManifest sha pkey parentState m) = (.ok success, st)) :
    m.Valid ∧ success.manifest = m ∧ st.1.pointers.get? pkey = some (m.body sha) ∧
      (st.1.objects.get? (contentKey sha "manifests" m.canonicalBytes)).isSome := by
  obtain ⟨⟨⟩, t, hcheck, hput⟩ := exec_exceptBind_ok.mp h
  obtain ⟨hvalid, rfl⟩ := exec_ofExcept_ok.mp hcheck
  obtain ⟨key, u, hkey, hswap⟩ := exec_exceptBind_ok.mp hput
  obtain ⟨-, rfl, -, hstored⟩ := putImmutable_ok hkey
  obtain ⟨digest, v, hofExcept, hswap'⟩ := exec_exceptBind_ok.mp hswap
  rw [digestFromManifestKey_contentKey] at hofExcept
  obtain ⟨hdigest, rfl⟩ := exec_ofExcept_ok.mp hofExcept
  cases hdigest
  obtain ⟨outcome, w, hcas, hend⟩ := exec_exceptBind_ok.mp hswap'
  rw [exec_mapError_ok] at hcas
  cases outcome with
  | won e =>
    cases hend
    refine ⟨?_, rfl, putPointer_won hcas, (grown_of_exec hcas).isSome hstored⟩
    rw [← validate_ok_iff]
    cases hresult : m.validate with
    | error e => rw [hresult] at hvalid; cases hvalid
    | ok u => rfl
  | lostRace =>
    obtain ⟨⟨winner, winnerKey⟩, x, -, hthrow⟩ := exec_exceptBind_ok.mp hend
    cases hthrow

end

end Vingilot.Git
