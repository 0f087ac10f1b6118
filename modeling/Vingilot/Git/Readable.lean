import Mathlib.Algebra.Order.BigOperators.Group.List
import Vingilot.Git.History
import Vingilot.Git.Published

/-! # Whether what is published can be hydrated

A push bounds the text of `for-each-ref`, and a reader bounds the JSON of the manifest. The names
that the pre-receive hook admits keep the JSON below its bound. A push bounds its pack, and a
reader bounds the index of the pack too.
-/

namespace Vingilot.Git

open Program

variable {key : String}

section

variable {etag : ByteArray → ETag} {sha : Sha256} {git : GitTool} {s : Store} {turns : List Turn}
  {ws : Workspace} {refs : OrdMap String String} {st : Store × List Turn}

/-! ## The size of the manifest -/

theorem isPackKey_iff (key : String) :
    isPackKey key = true ↔ ∃ digest, key = "packs/" ++ digest ∧ isManifestDigest digest = true := by
  unfold isPackKey
  rw [Option.any_eq_true]
  constructor
  · rintro ⟨digest, hstrip, hdigest⟩
    exact ⟨digest, eq_of_stripPrefix hstrip, hdigest⟩
  · rintro ⟨digest, rfl, hdigest⟩
    exact ⟨digest, stripPrefix_append "packs/" digest, hdigest⟩

theorem packKey_size (h : isPackKey key = true) : key.utf8ByteSize = 70 := by
  obtain ⟨digest, rfl, hdigest⟩ := (isPackKey_iff key).mp h
  simp only [isManifestDigest, Bool.and_eq_true, beq_iff_eq] at hdigest
  rw [String.utf8ByteSize_append, hdigest.1]
  rfl

theorem plain_of_isPackKey (h : isPackKey key = true) : Json.Plain key := by
  obtain ⟨digest, rfl, hdigest⟩ := (isPackKey_iff key).mp h
  intro c hc
  rw [String.toList_append, List.mem_append] at hc
  rcases hc with hc | hc
  · have hall : "packs/".toList.all (fun c => decide (Json.escapeChar c = [c])) = true := by decide
    exact of_decide_eq_true (List.all_eq_true.mp hall c hc)
  · exact plain_of_digest hdigest c hc

def manifestSize (head : String) (refs : List (String × String)) (packCount : Nat)
    (parent : Option String) : Nat :=
  54 + head.utf8ByteSize +
    ((refs.map fun r => r.1.utf8ByteSize + r.2.utf8ByteSize + 6).sum - 1) +
    (73 * packCount - 1) + (if parent.isSome then 66 else 4)

theorem byteSize_members (head : String) (refs packs parent : Json.Value) :
    Json.byteSize (Json.render (.obj [("version", .num ['1']), ("head", .str head),
        ("refs", refs), ("packs", packs), ("parent", parent)])) =
      48 + Json.byteSize (Json.renderString head) + Json.byteSize (Json.render refs) +
        Json.byteSize (Json.render packs) + Json.byteSize (Json.render parent) := by
  have hversion : Json.byteSize (Json.renderString "version") = 9 := by decide
  have hhead : Json.byteSize (Json.renderString "head") = 6 := by decide
  have hrefs : Json.byteSize (Json.renderString "refs") = 6 := by decide
  have hpacks : Json.byteSize (Json.renderString "packs") = 7 := by decide
  have hparent : Json.byteSize (Json.renderString "parent") = 8 := by decide
  have hopen : Char.utf8Size '{' = 1 := by decide
  have hclose : Char.utf8Size '}' = 1 := by decide
  have hcolon : Char.utf8Size ':' = 1 := by decide
  have hcomma : Char.utf8Size ',' = 1 := by decide
  have hone : Char.utf8Size '1' = 1 := by decide
  simp only [Json.render, Json.renderMembers, List.cons_append, List.append_assoc,
    List.nil_append, Json.byteSize_cons, Json.byteSize_append, Json.byteSize_nil, hversion, hhead,
    hrefs, hpacks, hparent, hopen, hclose, hcolon, hcomma, hone]
  clear hversion hhead hrefs hpacks hparent hopen hclose hcolon hcomma hone
  omega

theorem canonicalBytes_size {m : Manifest} (h : m.Valid) (hversion : m.version = manifestVersion)
    (hcanonical : m.canonical = m) :
    m.canonicalBytes.size = manifestSize m.head m.refs.entries m.packs.length m.parent := by
  have hrefs := Json.byteSize_stringMembers fun r hr =>
    ⟨plain_of_isSafeRefname (h.refs r hr).1, plain_of_isHexOid (h.refs r hr).2⟩
  have hpacks := Json.byteSize_strings fun key hkey => plain_of_isPackKey (h.packs key hkey)
  have hhead := Json.byteSize_renderString (plain_of_isSafeRefname h.head)
  have hkeys : (m.packs.map fun key => key.utf8ByteSize + 3).sum = 73 * m.packs.length := by
    rw [List.map_congr_left fun key hkey => by rw [packKey_size (h.packs key hkey)]]
    simp [Nat.mul_comm]
  have hone : Nat.toDigits 10 m.version = ['1'] := by
    rw [hversion]
    decide
  have hsize : m.canonicalBytes.size = Json.byteSize (Json.render m.toJson) := by
    rw [Manifest.canonicalBytes, hcanonical]
    rfl
  rw [hsize, Manifest.toJson, hone, byteSize_members, hhead, hrefs, hpacks, hkeys, manifestSize]
  cases hp : m.parent with
  | none =>
    have hnull : Json.byteSize (Json.render .null) = 4 := by decide
    simp only [hnull, Option.isSome_none, Bool.false_eq_true, if_false]
    omega
  | some p =>
    have hdigest := h.parent p hp
    have hplain := Json.byteSize_renderString (plain_of_digest hdigest)
    simp only [isManifestDigest, Bool.and_eq_true, beq_iff_eq] at hdigest
    simp only [Json.render, hplain, hdigest.1, Option.isSome_some, if_true]
    omega

/-! ## The names that the pre-receive hook admits (`api/git/policy.rs`) -/

structure HookRefUpdate where
  oldOid : String
  newOid : String
  refName : String

def maxRefUpdates : Nat := 500
def maxRefNameBytes : Nat := 256

def isHookOid (oid : String) : Bool := oid.utf8ByteSize == 40 && oid.toList.all isHexDigit

def isHookRefName (name : String) : Bool :=
  !name.isEmpty && decide (name.utf8ByteSize ≤ maxRefNameBytes) &&
    "refs/".toList.isPrefixOf name.toList && !Text.contains name.toList "..".toList &&
      name.toList.all fun c => !(decide (c.toNat ≤ 0x20) || c.toNat == 0x7f)

def checkHookUpdate (u : HookRefUpdate) : Except String Unit :=
  if !isHookOid u.oldOid then .error "invalid old_oid"
  else if !isHookOid u.newOid then .error "invalid new_oid"
  else if !isHookRefName u.refName then .error "invalid ref_name"
  else .ok ()

/-- The structural checks of `hook_policy_check`. -/
def checkHookUpdates (updates : List HookRefUpdate) : Except String Unit :=
  if updates.isEmpty ∨ maxRefUpdates < updates.length then .error "invalid ref_updates count"
  else updates.forM checkHookUpdate

theorem refName_size_of_hook {updates : List HookRefUpdate}
    (h : checkHookUpdates updates = .ok ()) :
    ∀ u ∈ updates, u.refName.utf8ByteSize ≤ maxRefNameBytes := by
  unfold checkHookUpdates at h
  split_ifs at h
  intro u hu
  have hu := (forM_ok_iff checkHookUpdate updates).mp h u hu
  unfold checkHookUpdate at hu
  split_ifs at hu with hold hnew hname
  simp only [isHookRefName, Bool.not_eq_true, Bool.not_eq_false', Bool.and_eq_true,
    decide_eq_true_eq] at hname
  exact hname.1.1.1.2

structure Manifest.ShortNames (m : Manifest) : Prop where
  head : m.head.utf8ByteSize ≤ maxRefNameBytes
  refs : ∀ r ∈ m.refs.entries, r.1.utf8ByteSize ≤ maxRefNameBytes

/-- What stands in the workspace when `cas_publish` is called: the refs of the parent and those
that the hook admitted, and `HEAD` as hydration wrote it. -/
structure AdmittedPush (parent : Manifest) (refs : OrdMap String String) (observed : String)
    (updates : List HookRefUpdate) : Prop where
  shortParent : parent.ShortNames
  hook : checkHookUpdates updates = .ok ()
  refs : ∀ r ∈ refs.entries, r.1 ∈ parent.refs.keys ∨ ∃ u ∈ updates, u.refName = r.1
  head : observed = parent.head ∨ observed = "refs/heads/main" ∨ observed = ""

section

variable {parent : Manifest} {observed : String} {updates : List HookRefUpdate}

theorem AdmittedPush.ref_size (h : AdmittedPush parent refs observed updates) :
    ∀ r ∈ refs.entries, r.1.utf8ByteSize ≤ maxRefNameBytes := by
  intro r hr
  rcases h.refs r hr with hparent | ⟨u, hu, hname⟩
  · obtain ⟨r', hr', heq⟩ := List.mem_map.mp hparent
    rw [← heq]
    exact h.shortParent.refs r' hr'
  · rw [← hname]
    exact refName_size_of_hook h.hook u hu

theorem resolvePublishedHead_mem (refs : OrdMap String String) (observed parentHead : String) :
    resolvePublishedHead refs observed parentHead ∈ refs.keys ∨
      resolvePublishedHead refs observed parentHead ∈ [observed, parentHead] := by
  unfold resolvePublishedHead
  simp only [Bool.and_eq_true]
  split_ifs with hobserved hparent hmain hmaster
  · exact Or.inl (of_decide_eq_true hobserved.2)
  · exact Or.inl (of_decide_eq_true hparent.2)
  · exact Or.inl (of_decide_eq_true hmain)
  · exact Or.inl (of_decide_eq_true hmaster)
  all_goals
    split
    · next branch hbranch => exact Or.inl (List.mem_of_find?_eq_some hbranch)
    · exact Or.inr (by simp)

theorem AdmittedPush.head_size (h : AdmittedPush parent refs observed updates) :
    (resolvePublishedHead refs observed parent.head).utf8ByteSize ≤ maxRefNameBytes := by
  have hobserved : observed.utf8ByteSize ≤ maxRefNameBytes := by
    rcases h.head with rfl | rfl | rfl
    · exact h.shortParent.head
    · decide
    · decide
  rcases resolvePublishedHead_mem refs observed parent.head with hmem | hmem
  · obtain ⟨r, hr, heq⟩ := List.mem_map.mp hmem
    rw [← heq]
    exact h.ref_size r hr
  · simp only [List.mem_cons, List.not_mem_nil, or_false] at hmem
    rcases hmem with heq | heq
    · rw [heq]
      exact hobserved
    · rw [heq]
      exact h.shortParent.head

/-- The manifest of an admitted push is again a parent with short names. -/
theorem AdmittedPush.shortNames (h : AdmittedPush parent refs observed updates)
    (packs : List String) (digest : Option String) :
    Manifest.ShortNames
      ⟨manifestVersion, resolvePublishedHead refs observed parent.head, refs, packs, digest⟩ :=
  ⟨h.head_size, h.ref_size⟩

end

theorem manifestSize_le {m : Manifest} (h : m.Valid) (hshort : m.ShortNames) :
    manifestSize m.head m.refs.entries m.packs.length m.parent ≤ maxManifestBytes := by
  have hrefs : ∀ refs : List (String × String), (∀ r ∈ refs, r ∈ m.refs.entries) →
      (refs.map fun r => r.1.utf8ByteSize + r.2.utf8ByteSize + 6).sum ≤ 326 * refs.length := by
    intro refs hmem
    induction refs with
    | nil => exact Nat.le_refl 0
    | cons r refs ih =>
      have hr := hmem r List.mem_cons_self
      have hname := hshort.refs r hr
      have hoid := (h.refs r hr).2
      simp only [isHexOid, Bool.and_eq_true, Bool.or_eq_true, beq_iff_eq] at hoid
      have hrest := ih fun r' hr' => hmem r' (List.mem_cons_of_mem _ hr')
      rw [List.map_cons, List.sum_cons, List.length_cons]
      unfold maxRefNameBytes at hname
      omega
  have hsum := hrefs m.refs.entries fun _ hr => hr
  have hcount : m.refs.entries.length ≤ 10000 := h.refCount
  have hpacks : m.packs.length ≤ 128 := h.packCount
  have hhead : m.head.utf8ByteSize ≤ 256 := hshort.head
  have hparent : (if m.parent.isSome then 66 else 4) ≤ 66 := by split_ifs <;> decide
  unfold manifestSize maxManifestBytes
  omega

/-! ## What can be hydrated -/

def HydrationOptions.limits (options : HydrationOptions) (hydratedBytes : Nat) : PublishLimits :=
  ⟨hydratedBytes, options.maxPackBytes, options.maxRepoBytes⟩

variable {options : HydrationOptions} {pkey : String} {parentState : ParentState}

theorem hydrateForWrite_ok {st₀ : Store × List Turn} {repo : HydratedRepo}
    (h : exec (Store.turn etag) st₀ (hydrateForWrite sha git options pkey) =
      (.ok (repo, parentState), st)) :
    (∀ key ∈ parentState.parent.packs, PackReadable sha git options st.1 key) ∧
      repo.hydratedBytes = packSizes st.1 parentState.parent.packs ∧
        BudgetHolds options parentState.parent.packs repo.hydratedBytes := by
  obtain ⟨loaded, t, -, hloaded⟩ := exec_exceptBind_ok.mp h
  rcases loaded with _ | ⟨e, digest, m⟩
  · cases hloaded
    exact ⟨nofun, rfl, Or.inl rfl⟩
  · obtain ⟨repo', u, hmaterialize, hpure⟩ := exec_exceptBind_ok.mp hloaded
    cases hpure
    obtain ⟨total, v, hpacks, hrefs⟩ := exec_exceptBind_ok.mp hmaterialize
    obtain ⟨⟨⟩, w, hinstall, hrepo⟩ := exec_exceptBind_ok.mp hrefs
    cases hrepo
    obtain ⟨-, rfl⟩ := exec_ofExcept_ok.mp hinstall
    obtain ⟨hreadable, htotal, hbudget⟩ := materializePacks_ok hpacks
    rw [Nat.zero_add] at htotal
    exact ⟨hreadable, htotal, hbudget⟩

structure NoCollision (sha : Sha256) (ws : Workspace) (success : CasSuccess) (s : Store) : Prop where
  manifest : ∀ bytes, s.objects.get?
    (contentKey sha "manifests" success.manifest.canonicalBytes) = some bytes →
      bytes = success.manifest.canonicalBytes
  packs : ∀ pack, (ws.deltaPack = some pack ∨
      ∃ compacted, ws.compactedPacks = some compacted ∧ pack ∈ compacted) →
    ∀ bytes, s.objects.get? (contentKey sha "packs" pack) = some bytes → bytes = pack

theorem packSizes_sortDedup_le (s : Store) (keys : List String) :
    packSizes s (sortDedup keys) ≤ packSizes s keys := by
  have hnodup : (sortDedup keys).Nodup := (sorted_sortDedup keys).imp ne_of_lt
  have hsub : (sortDedup keys).Subperm keys :=
    List.subperm_of_subset hnodup fun key hkey => (mem_sortDedup keys key).mp hkey
  obtain ⟨keys', hperm, hsublist⟩ := hsub
  calc packSizes s (sortDedup keys) = packSizes s keys' := (hperm.map _).sum_eq.symm
    _ ≤ packSizes s keys := (hsublist.map (packSize s)).sum_le_sum fun _ _ => Nat.zero_le _

theorem packSize_of_stored {bytes : ByteArray} (h : s.objects.get? key = some bytes) :
    packSize s key = bytes.size := by
  rw [packSize, h]
  rfl

theorem packSizes_pushNew_le (s : Store) (keys : List String) (key : String) :
    packSizes s (pushNew keys key) ≤ packSizes s keys + packSize s key := by
  unfold pushNew
  split_ifs
  · exact Nat.le_add_right _ _
  · simp [packSizes]

/-- What hydration and publication leave: the packs of the parent can be read, and those of the
push are stored under their keys. -/
structure PushLeft (sha : Sha256) (git : GitTool) (options : HydrationOptions) (ws : Workspace)
    (refs : OrdMap String String) (parent : List String) (limits : PublishLimits)
    (turns : List Turn) (s : Store) : Prop where
  parentReadable : ∀ key ∈ parent, PackReadable sha git options s key
  parentBytes : limits.parentHydratedBytes = packSizes s parent
  parentBudget : BudgetHolds options parent limits.parentHydratedBytes
  put : PacksPut sha git ws refs parent limits turns s
  faithful : ∀ pack, (ws.deltaPack = some pack ∨
      ∃ compacted, ws.compactedPacks = some compacted ∧ pack ∈ compacted) →
    ∀ bytes, s.objects.get? (contentKey sha "packs" pack) = some bytes → bytes = pack

section

variable {parent : List String} {hydratedBytes : Nat}

theorem budgetHolds_sortDedup {keys : List String} {total : Nat} (hle : packSizes s keys ≤ total)
    (h : keys = [] ∨ total ≤ options.maxRepoBytes ∧ total < u64Bound) :
    BudgetHolds options (sortDedup keys) (packSizes s (sortDedup keys)) := by
  have hdedup := packSizes_sortDedup_le s keys
  rcases h with rfl | ⟨hrepo, hoverflow⟩
  · exact Or.inl rfl
  · exact Or.inr ⟨by omega, by omega⟩

theorem PushLeft.compacted (h : PushLeft sha git options ws refs parent
      (options.limits hydratedBytes) turns s)
    {packs : List ByteArray} (hpacks : compactedPacks git ws refs
      (options.limits hydratedBytes) parent.length turns =
        some packs) :
    (∀ key ∈ packs.map (contentKey sha "packs"), PackReadable sha git options s key) ∧
      BudgetHolds options (sortDedup (packs.map (contentKey sha "packs")))
        (packSizes s (sortDedup (packs.map (contentKey sha "packs")))) := by
  obtain ⟨-, -, hcapture, -⟩ := compactedPacks_eq_some.mp hpacks
  obtain ⟨hcheck, hfrom⟩ := captureCompactedPacks_ok hcapture
  obtain ⟨hfit, hsum⟩ := checkCompactedPacks_ok hcheck
  have hstored : ∀ pack ∈ packs, s.objects.get? (contentKey sha "packs" pack) = some pack := by
    intro pack hpack
    obtain ⟨bytes, hbytes⟩ := Option.isSome_iff_exists.mp (h.put.compacted packs hpacks pack hpack)
    rw [hbytes, h.faithful pack (Or.inr (hfrom pack hpack)) bytes hbytes]
  refine ⟨?_, ?_⟩
  · intro key hkey
    obtain ⟨pack, hpack, rfl⟩ := List.mem_map.mp hkey
    exact ⟨pack, rfl, hstored pack hpack, hfit pack hpack⟩
  · have hsizes : packSizes s (packs.map (contentKey sha "packs")) =
        (packs.map ByteArray.size).sum := by
      rw [packSizes, List.map_map]
      exact congrArg List.sum
        (List.map_congr_left fun pack hpack => packSize_of_stored (hstored pack hpack))
    refine budgetHolds_sortDedup hsizes.le ?_
    rcases hsum with rfl | hsum
    · exact Or.inl rfl
    · rw [Nat.zero_add] at hsum
      exact Or.inr hsum

theorem PushLeft.delta (h : PushLeft sha git options ws refs parent
      (options.limits hydratedBytes) turns s)
    (hnone : compactedPacks git ws refs
      (options.limits hydratedBytes) parent.length turns = none)
    {pack : ByteArray} (hpack : deltaPack ws refs
      (options.limits hydratedBytes) = some pack) :
    (PackReadable sha git options s (contentKey sha "packs" pack) ↔
        IndexFits git options.maxPackBytes pack) ∧
      BudgetHolds options (sortDedup (pushNew parent (contentKey sha "packs" pack)))
        (packSizes s (sortDedup (pushNew parent (contentKey sha "packs" pack)))) := by
  obtain ⟨hsize, hsome, hrepo, hoverflow⟩ := h.put.delta hnone pack hpack
  have hcapture : capturePack ws refs options.maxPackBytes = .ok (some pack) := by
    unfold deltaPack at hpack
    cases hresult : capturePack ws refs options.maxPackBytes with
    | error e =>
      rw [show (options.limits hydratedBytes).maxPackBytes = options.maxPackBytes from rfl,
        hresult] at hpack
      cases hpack
    | ok pack? =>
      rw [show (options.limits hydratedBytes).maxPackBytes = options.maxPackBytes from rfl,
        hresult] at hpack
      cases hpack
      rfl
  have hws := (capturePack_some hcapture).1
  have hstored : s.objects.get? (contentKey sha "packs" pack) = some pack := by
    obtain ⟨bytes, hbytes⟩ := Option.isSome_iff_exists.mp hsome
    rw [hbytes, h.faithful pack (Or.inl hws) bytes hbytes]
  refine ⟨⟨?_, ?_⟩, ?_⟩
  · rintro ⟨bytes, -, hbytes, -, hindex⟩
    cases hstored.symm.trans hbytes
    exact hindex
  · intro hindex
    exact ⟨pack, rfl, hstored, hsize, hindex⟩
  · have hle := packSizes_pushNew_le s parent (contentKey sha "packs" pack)
    rw [packSize_of_stored hstored, ← h.parentBytes] at hle
    exact budgetHolds_sortDedup hle (Or.inr ⟨hrepo, hoverflow⟩)

theorem PushLeft.packs_iff (h : PushLeft sha git options ws refs parent
      (options.limits hydratedBytes) turns s)
    {keys : List String} (hkeys : keys = publishedKeys sha git ws refs parent
      (options.limits hydratedBytes) turns) :
    ((∀ key ∈ sortDedup keys, PackReadable sha git options s key) ∧
        BudgetHolds options (sortDedup keys) (packSizes s (sortDedup keys))) ↔
      (compactedPacks git ws refs
          (options.limits hydratedBytes) parent.length turns = none →
        ∀ pack, deltaPack ws refs
            (options.limits hydratedBytes) = some pack →
          IndexFits git options.maxPackBytes pack) := by
  simp only [mem_sortDedup]
  cases hpacks : compactedPacks git ws refs
      (options.limits hydratedBytes) parent.length turns with
  | some packs =>
    have heq : keys = packs.map (contentKey sha "packs") := by
      rw [hkeys, publishedKeys, hpacks]
    rw [heq]
    exact iff_of_true (h.compacted hpacks) fun h => by cases h
  | none =>
    cases hdelta : deltaPack ws refs
        (options.limits hydratedBytes) with
    | none =>
      have heq : keys = parent := by
        rw [hkeys, publishedKeys, hpacks, hdelta]
        rfl
      rw [heq]
      refine iff_of_true ⟨h.parentReadable, ?_⟩ fun _ _ h => by cases h
      exact budgetHolds_sortDedup h.parentBytes.ge h.parentBudget
    | some pack =>
      have heq : keys = pushNew parent (contentKey sha "packs" pack) := by
        rw [hkeys, publishedKeys, hpacks, hdelta]
        rfl
      obtain ⟨hreadable, hbudget⟩ := h.delta hpacks hdelta
      rw [heq]
      constructor
      · rintro ⟨hall, -⟩ - pack' ⟨⟩
        exact hreadable.mp (hall _ ((mem_pushNew _ _ _).mpr (Or.inr rfl)))
      · intro hindex
        refine ⟨?_, hbudget⟩
        intro key hkey
        rcases (mem_pushNew _ _ _).mp hkey with hparent | rfl
        · exact h.parentReadable key hparent
        · exact hreadable.mpr (hindex rfl pack rfl)

end

end

theorem casPublish_ok {etag : ByteArray → ETag} {sha : Sha256} {git : GitTool} {pkey : String}
    {ws : Workspace} {parentState : ParentState} {limits : PublishLimits} {success : CasSuccess}
    {s s' : Store} {turns turns' : List Turn}
    (h : exec (Store.turn etag) (s, turns) (casPublish sha git pkey ws parentState limits) =
      (.ok success, s', turns')) (hfree : NoCollision sha ws success s') :
    ∃ refs observed, snapshotWorkspaceState ws = .ok (refs, observed) ∧
      success.manifest =
        ⟨manifestVersion, resolvePublishedHead refs observed parentState.parent.head, refs,
          sortDedup (publishedKeys sha git ws refs parentState.parent.packs limits turns),
          parentState.parentDigest⟩ ∧
      Published sha s' pkey success.manifest ∧
      PacksPut sha git ws refs parentState.parent.packs limits turns s' := by
  obtain ⟨m, t, hcompose, hcommit⟩ := exec_exceptBind_ok.mp h
  obtain ⟨refs, observed, hsnapshot, hm, hput⟩ := composeManifest_ok hcompose
  obtain ⟨hvalid, rfl, hpointer, hstored⟩ := commitManifest_ok hcommit
  refine ⟨refs, observed, hsnapshot, hm, ⟨hpointer, ?_, ?_, ?_, hvalid⟩, ?_, ?_⟩
  · obtain ⟨bytes, hbytes⟩ := Option.isSome_iff_exists.mp hstored
    rw [hbytes, hfree.manifest bytes hbytes]
  · rw [hm]
  · rw [hm]
    simp only [Manifest.canonical, sortDedup_of_sorted (sorted_sortDedup _)]
  · intro packs hpacks pack hpack
    exact (grown_of_exec hcommit).isSome (hput.compacted packs hpacks pack hpack)
  · intro hnone pack hpack
    obtain ⟨hsize, hsome, hrest⟩ := hput.delta hnone pack hpack
    exact ⟨hsize, (grown_of_exec hcommit).isSome hsome, hrest⟩

/-- A repository whose push succeeded can be hydrated exactly when a pack that the push added can
be indexed within the limit. -/
theorem published_repo_hydrates_iff (sha : Sha256) (git : GitTool) (etag : ByteArray → ETag)
    (options : HydrationOptions) (pkey : String) (st₀ : Store × List Turn) (repo : HydratedRepo)
    (parentState : ParentState) (s₁ : Store) (turns₁ : List Turn) (ws : Workspace)
    (refs : OrdMap String String) (observed : String) (updates : List HookRefUpdate)
    (success : CasSuccess) (s₂ : Store) (turns₂ : List Turn)
    (hhydrate : exec (Store.turn etag) st₀ (hydrateForWrite sha git options pkey) =
      (.ok (repo, parentState), s₁, turns₁))
    (hrefs : snapshotWorkspaceState ws = .ok (refs, observed))
    (hadmitted : AdmittedPush parentState.parent refs observed updates)
    (hpublish : exec (Store.turn etag) (s₁, turns₁)
        (casPublish sha git pkey ws parentState (options.limits repo.hydratedBytes)) =
      (.ok success, s₂, turns₂))
    (hfree : NoCollision sha ws success s₂) :
    Hydrates sha git etag options pkey s₂ ↔
      (compactedPacks git ws refs (options.limits repo.hydratedBytes)
          parentState.parent.packs.length turns₁ = none →
        ∀ pack, deltaPack ws refs (options.limits repo.hydratedBytes) = some pack →
          IndexFits git options.maxPackBytes pack) := by
  obtain ⟨hreadable, hbytes, hbudget⟩ := hydrateForWrite_ok hhydrate
  obtain ⟨refs', observed', hrefs', hmanifest, hpublished, hput⟩ := casPublish_ok hpublish hfree
  cases hrefs.symm.trans hrefs'
  have hgrown : s₁.Grown s₂ := grown_of_exec hpublish
  have hleft : PushLeft sha git options ws refs parentState.parent.packs
      (options.limits repo.hydratedBytes) turns₁ s₂ := by
    refine ⟨fun key hkey => (hreadable key hkey).mono hgrown, ?_, hbudget, hput, hfree.packs⟩
    exact hbytes.trans (packSizes_eq hreadable hgrown).symm
  have hpacks : success.manifest.packs = sortDedup (publishedKeys sha git ws refs
      parentState.parent.packs (options.limits repo.hydratedBytes) turns₁) := by
    rw [hmanifest]
  have hshort : success.manifest.ShortNames := by
    rw [hmanifest]
    exact hadmitted.shortNames _ _
  rw [hpublished.hydrates_iff, canonicalBytes_size hpublished.valid hpublished.version
    hpublished.canonical, hpacks, hleft.packs_iff rfl, ← hpacks]
  exact and_iff_right (manifestSize_le hpublished.valid hshort)

end Vingilot.Git
