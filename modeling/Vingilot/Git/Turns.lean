import Vingilot.Git.Requests

/-! # Hydration among other parties

A program runs while other parties have their requests served in between and while its own
may fail. Objects stay, so what a read has seen is there later too.
-/

namespace Vingilot.Git

open Program

/-! ## Programs among other parties -/

/-- What other parties ask before one request, and the failure that hits the request. -/
structure Turn where
  others : List Op
  fault : Option Fault

section

variable (etag : ByteArray → ETag)

def Store.serveAll (s : Store) (ops : List Op) : Store :=
  ops.foldl (fun s op => (s.handle etag op).2) s

def Store.turn : Store × List Turn → (op : Op) → op.Reply × (Store × List Turn)
  | (s, []), op => ((s.handle etag op).1, (s.handle etag op).2, [])
  | (s, t :: turns), op =>
    let r := (s.serveAll etag t.others).attempt etag op t.fault
    (r.1, r.2, turns)

/-- No object is lost or changed. -/
def Store.Grown (s s' : Store) : Prop :=
  ∀ key bytes, s.objects.get? key = some bytes → s'.objects.get? key = some bytes

end

variable {etag : ByteArray → ETag} {s s' : Store}

theorem Store.Grown.refl (s : Store) : s.Grown s := fun _ _ h => h

theorem Store.Grown.trans {s₁ s₂ s₃ : Store} (h : s₁.Grown s₂) (h' : s₂.Grown s₃) :
    s₁.Grown s₃ :=
  fun key bytes hget => h' key bytes (h key bytes hget)

theorem grown_handle (s : Store) (op : Op) : s.Grown (s.handle etag op).2 := by
  intro key bytes hget
  cases op with
  | head key' => rwa [handle_head_store]
  | get key' => rwa [handle_get_store]
  | getPointer key' => exact hget
  | putNew key' bytes' =>
    rw [handle_putNew_store]
    split_ifs with htaken
    · exact hget
    · rw [Table.get?_set, if_neg ?_]
      · exact hget
      · rintro rfl
        rw [hget] at htaken
        exact htaken rfl
  | putPointer key' body precond =>
    rw [handle_putPointer]
    split_ifs
    · exact hget
    · exact hget

theorem grown_attempt (s : Store) (op : Op) (fault : Option Fault) :
    s.Grown (s.attempt etag op fault).2 := by
  rcases fault with _ | _ | _
  · exact grown_handle s op
  · exact .refl s
  · exact grown_handle s op

theorem grown_serveAll (s : Store) (ops : List Op) : s.Grown (s.serveAll etag ops) := by
  induction ops generalizing s with
  | nil => exact .refl s
  | cons op ops ih => exact (grown_handle s op).trans (ih _)

theorem turn_cases (st : Store × List Turn) (op : Op) :
    ∃ s, st.1.Grown s ∧ s.Grown (Store.turn etag st op).2.1 ∧
      ((Store.turn etag st op).1 = op.failed ∨
        (Store.turn etag st op).1 = (s.handle etag op).1 ∧
          (Store.turn etag st op).2.1 = (s.handle etag op).2) := by
  obtain ⟨s, _ | ⟨t, turns⟩⟩ := st
  · exact ⟨s, .refl s, grown_handle s op, Or.inr ⟨rfl, rfl⟩⟩
  · refine ⟨s.serveAll etag t.others, grown_serveAll s _, grown_attempt _ op _, ?_⟩
    obtain ⟨others, _ | _ | _⟩ := t
    · exact Or.inr ⟨rfl, rfl⟩
    · exact Or.inl rfl
    · exact Or.inl rfl

theorem grown_of_exec {α : Type} {st st' : Store × List Turn} {p : StoreM α} {r : α}
    (h : exec (Store.turn etag) st p = (r, st')) : st.1.Grown st'.1 := by
  have hinv : st.1.Grown (exec (Store.turn etag) st p).2.1 := by
    refine exec_invariant (fun st' => st.1.Grown st'.1) ?_ st p (.refl _)
    intro st' op h
    obtain ⟨s, hs, hs', -⟩ := @turn_cases etag st' op
    exact h.trans (hs.trans hs')
  rwa [h] at hinv

/-! ## What a read that succeeds tells -/

variable {key digest pkey : String} {bytes pack : ByteArray} {maxBytes : Nat} {keys : List String}

section

variable {sha : Sha256} {git : GitTool} {options : HydrationOptions} {st st' : Store × List Turn}

theorem getObject_ok (h : exec (Store.turn etag) st (getObject key) = (.ok bytes, st')) :
    st'.1.objects.get? key = some bytes := by
  obtain ⟨s, -, -, hcases⟩ := @turn_cases etag st (.get key)
  obtain ⟨hreply, hstate⟩ := Prod.mk.inj h
  rcases hcases with hfailed | ⟨hhandle, hstore⟩
  · cases hfailed.symm.trans hreply
  · rw [← hstate, hstore, handle_get_store]
    have hfound : (s.handle etag (.get key)).1 = .ok bytes := hhandle.symm.trans hreply
    simp only [Store.handle] at hfound
    split at hfound
    · next bytes' hget =>
      cases hfound
      exact hget
    · cases hfound

theorem verify_ok {expected : String} {bytes' : ByteArray}
    (h : exec (Store.turn etag) st (verify sha key expected bytes) = (.ok bytes', st')) :
    bytes' = bytes ∧ sha.hex bytes = expected ∧ st' = st := by
  unfold verify at h
  split_ifs at h with hne
  · cases h
  · cases h
    exact ⟨rfl, not_not.mp hne, rfl⟩

theorem getLimited_ok (h : exec (Store.turn etag) st (getLimited key maxBytes) = (.ok bytes, st')) :
    st'.1.objects.get? key = some bytes ∧ bytes.size ≤ maxBytes := by
  obtain ⟨size, t, -, h⟩ := exec_exceptBind_ok.mp h
  split_ifs at h
  · cases h
  · obtain ⟨bytes', u, hget, h⟩ := exec_exceptBind_ok.mp h
    split_ifs at h with hsize
    · cases h
    · cases h
      exact ⟨getObject_ok hget, not_lt.mp hsize⟩

theorem readVerifiedLimited_ok
    (h : exec (Store.turn etag) st (readVerifiedLimited sha key digest maxBytes) =
      (.ok bytes, st')) :
    st'.1.objects.get? key = some bytes ∧ sha.hex bytes = digest ∧ bytes.size ≤ maxBytes := by
  obtain ⟨bytes', t, hget, hverify⟩ := exec_exceptBind_ok.mp (exec_mapError_ok.mp h)
  obtain ⟨rfl, hhex, rfl⟩ := verify_ok hverify
  obtain ⟨hobject, hsize⟩ := getLimited_ok hget
  exact ⟨hobject, hhex, hsize⟩

def IndexFits (git : GitTool) (maxBytes : Nat) (pack : ByteArray) : Prop :=
  ∃ idx, git.indexPack pack = some idx ∧ idx.size ≤ maxBytes

theorem generateIdx_ok_iff :
    exec (Store.turn etag) st (generateIdx git digest pack maxBytes) = (.ok (), st') ↔
      IndexFits git maxBytes pack ∧ st' = st := by
  unfold generateIdx IndexFits
  split
  · next hnone => simp [hnone, exec_throw]
  · next idx hidx =>
    split_ifs with hsize
    · simp [hidx, exec_throw, hsize]
    · simp [hidx, exec_pure, not_lt.mp hsize, eq_comm]

theorem getIdx_size {idx : ByteArray}
    (h : exec (Store.turn etag) st (getIdx digest maxBytes) = (.ok (some idx), st')) :
    idx.size ≤ maxBytes := by
  obtain ⟨key, t, -, h⟩ := exec_exceptBind_ok.mp h
  change exec _ t ((getLimited key maxBytes).run >>= _) = _ at h
  rw [exec_bind] at h
  rcases hget : exec (Store.turn etag) t (getLimited key maxBytes) with ⟨r, u⟩
  rw [show exec (Store.turn etag) t (getLimited key maxBytes).run = (r, u) from hget] at h
  rcases r with e | bytes
  · cases e <;> cases h
  · cases h
    exact (getLimited_ok hget).2

theorem installOrGenerateIdx_ok
    (h : exec (Store.turn etag) st (installOrGenerateIdx git digest pack maxBytes) =
      (.ok (), st')) : IndexFits git maxBytes pack := by
  change exec _ st ((getIdx digest maxBytes).run >>= _) = _ at h
  rw [exec_bind] at h
  rcases hget : exec (Store.turn etag) st (getIdx digest maxBytes) with ⟨r, u⟩
  rw [show exec (Store.turn etag) st (getIdx digest maxBytes).run = (r, u) from hget] at h
  rcases r with e | _ | idx
  · exact (generateIdx_ok_iff.mp h).1
  · exact (generateIdx_ok_iff.mp h).1
  · dsimp only at h
    split_ifs at h with hindex
    · exact ⟨idx, hindex, getIdx_size hget⟩
    · exact (generateIdx_ok_iff.mp h).1

variable (sha git options) in
/-- What hydration asks of one pack. -/
def PackReadable (s : Store) (key : String) : Prop :=
  ∃ bytes, key = contentKey sha "packs" bytes ∧ s.objects.get? key = some bytes ∧
    bytes.size ≤ options.maxPackBytes ∧ IndexFits git options.maxPackBytes bytes

def packSize (s : Store) (key : String) : Nat := ((s.objects.get? key).map ByteArray.size).getD 0

def packSizes (s : Store) (keys : List String) : Nat := (keys.map (packSize s)).sum

theorem PackReadable.mono (h : PackReadable sha git options s key) (hgrown : s.Grown s') :
    PackReadable sha git options s' key := by
  obtain ⟨bytes, hkey, hget, hrest⟩ := h
  exact ⟨bytes, hkey, hgrown _ _ hget, hrest⟩

theorem PackReadable.packSize_eq (h : PackReadable sha git options s key) (hgrown : s.Grown s') :
    packSize s' key = packSize s key := by
  obtain ⟨bytes, -, hget, -⟩ := h
  rw [packSize, packSize, hget, hgrown _ _ hget]

theorem packSizes_eq (h : ∀ key ∈ keys, PackReadable sha git options s key) (hgrown : s.Grown s') :
    packSizes s' keys = packSizes s keys := by
  have hsizes : keys.map (packSize s') = keys.map (packSize s) :=
    List.map_congr_left fun key hkey => (h key hkey).packSize_eq hgrown
  rw [packSizes, packSizes, hsizes]

theorem eq_of_stripPrefix {text pre rest : String} (h : stripPrefix text pre = some rest) :
    text = pre ++ rest := by
  unfold stripPrefix at h
  split_ifs at h with hstarts
  obtain ⟨tail, htail⟩ := List.isPrefixOf_iff_prefix.mp hstarts
  cases h
  apply String.toList_inj.mp
  rw [String.toList_append, String.toList_ofList, ← htail, List.drop_left]

theorem materializePack_ok {n : Nat} (hkey : stripPrefix key "packs/" = some digest)
    (h : exec (Store.turn etag) st (materializePack sha git key digest options.maxPackBytes) =
      (.ok n, st')) : PackReadable sha git options st'.1 key ∧ n = packSize st'.1 key := by
  unfold materializePack at h
  split_ifs at h
  · cases h
  · obtain ⟨bytes, t, hread, h⟩ := exec_exceptBind_ok.mp h
    obtain ⟨⟨⟩, u, hinstall, h⟩ := exec_exceptBind_ok.mp h
    cases h
    obtain ⟨hget, hhex, hsize⟩ := readVerifiedLimited_ok hread
    have hget' := grown_of_exec hinstall _ _ hget
    refine ⟨⟨bytes, ?_, hget', hsize, installOrGenerateIdx_ok hinstall⟩, ?_⟩
    · rw [eq_of_stripPrefix hkey, ← hhex]
      rfl
    · rw [packSize, hget']
      rfl

def BudgetHolds (options : HydrationOptions) (keys : List String) (total : Nat) : Prop :=
  keys = [] ∨ total ≤ options.maxRepoBytes ∧ total < u64Bound

theorem materializePacks_ok {hydrated total : Nat}
    (h : exec (Store.turn etag) st (materializePacks sha git options hydrated keys) =
      (.ok total, st')) : (∀ key ∈ keys, PackReadable sha git options st'.1 key) ∧
      total = hydrated + packSizes st'.1 keys ∧ BudgetHolds options keys total := by
  induction keys generalizing hydrated st with
  | nil =>
    cases h
    exact ⟨nofun, rfl, Or.inl rfl⟩
  | cons key keys ih =>
    unfold materializePacks at h
    split at h
    · cases h
    · next digest hkey =>
      obtain ⟨n, t, hpack, h⟩ := exec_exceptBind_ok.mp h
      split_ifs at h with hmax hoverflow hrepo
      · cases h
      · cases h
      · cases h
      · obtain ⟨hreadable, hsize⟩ := materializePack_ok hkey hpack
        have hgrown := grown_of_exec h
        obtain ⟨hrest, htotal, hbudget⟩ := ih h
        have hn : packSize st'.1 key = n := (hreadable.packSize_eq hgrown).trans hsize.symm
        refine ⟨?_, ?_, Or.inr ?_⟩
        · intro key' hmem
          rcases List.mem_cons.mp hmem with rfl | hmem
          · exact hreadable.mono hgrown
          · exact hrest key' hmem
        · simp only [packSizes, List.map_cons, List.sum_cons, hn] at htotal ⊢
          omega
        · rcases hbudget with rfl | hbudget
          · simp only [packSizes, List.map_nil, List.sum_nil] at htotal
            omega
          · exact hbudget

/-! ## Reads that nothing disturbs -/

theorem exec_readOnly {α : Type} {p : StoreM α} (h : ReadOnly p) (s : Store) :
    (exec (Store.turn etag) (s, []) p).2 = (s, []) := by
  refine exec_avoids (fun st => st = (s, [])) ?_ h rfl
  rintro _ (_ | _ | _ | _ | _) hop rfl
  · simp [Store.turn]
  · simp [Store.turn]
  · simp [Store.turn]
  · cases hop
  · cases hop

theorem exec_headObject (s : Store) (key : String) :
    exec (Store.turn etag) (s, []) (headObject key) =
      (match s.objects.get? key with
        | some bytes => .ok bytes.size
        | none => .error (.notFound key), s, []) := by
  change ((s.handle etag (.head key)).1, (s.handle etag (.head key)).2, ([] : List Turn)) = _
  simp only [Store.handle]
  cases s.objects.get? key <;> rfl

theorem exec_getObject (s : Store) (key : String) :
    exec (Store.turn etag) (s, []) (getObject key) =
      (match s.objects.get? key with
        | some bytes => .ok bytes
        | none => .error (.notFound key), s, []) := by
  change ((s.handle etag (.get key)).1, (s.handle etag (.get key)).2, ([] : List Turn)) = _
  simp only [Store.handle]
  cases s.objects.get? key <;> rfl

theorem exec_getLimited (hget : s.objects.get? key = some bytes) (hsize : bytes.size ≤ maxBytes) :
    exec (Store.turn etag) (s, []) (getLimited key maxBytes) = (.ok bytes, s, []) := by
  refine exec_exceptBind_ok.mpr ⟨bytes.size, (s, []), by rw [exec_headObject, hget], ?_⟩
  rw [if_neg (not_lt.mpr hsize)]
  refine exec_exceptBind_ok.mpr ⟨bytes, (s, []), by rw [exec_getObject, hget], ?_⟩
  rw [if_neg (not_lt.mpr hsize)]
  rfl

theorem exec_readVerifiedLimited (hget : s.objects.get? key = some bytes)
    (hhex : sha.hex bytes = digest) (hsize : bytes.size ≤ maxBytes) :
    exec (Store.turn etag) (s, []) (readVerifiedLimited sha key digest maxBytes) =
      (.ok bytes, s, []) := by
  refine exec_mapError_ok.mpr (exec_exceptBind_ok.mpr ⟨bytes, (s, []), exec_getLimited hget hsize, ?_⟩)
  rw [verify, if_neg (not_not.mpr hhex)]
  rfl

theorem exec_installOrGenerateIdx (h : IndexFits git maxBytes pack) :
    exec (Store.turn etag) (s, []) (installOrGenerateIdx git digest pack maxBytes) =
      (.ok (), s, []) := by
  change exec _ (s, []) ((getIdx digest maxBytes).run >>= _) = _
  rw [exec_bind]
  rcases hget : exec (Store.turn etag) (s, []) (getIdx digest maxBytes) with ⟨r, u⟩
  have hu : u = (s, []) := by
    rw [← @exec_readOnly etag _ _ (readOnly_getIdx digest maxBytes) s, hget]
  rw [show exec (Store.turn etag) (s, []) (getIdx digest maxBytes).run = (r, u) from hget, hu]
  have hgenerate : exec (Store.turn etag) (s, []) (generateIdx git digest pack maxBytes) =
      (.ok (), s, []) := generateIdx_ok_iff.mpr ⟨h, rfl⟩
  rcases r with e | _ | idx
  · exact hgenerate
  · exact hgenerate
  · dsimp only
    split_ifs
    · rfl
    · exact hgenerate

theorem exec_materializePacks {hydrated : Nat}
    (h : ∀ key ∈ keys, PackReadable sha git options s key)
    (hbudget : BudgetHolds options keys (hydrated + packSizes s keys)) :
    exec (Store.turn etag) (s, []) (materializePacks sha git options hydrated keys) =
      (.ok (hydrated + packSizes s keys), s, []) := by
  induction keys generalizing hydrated with
  | nil => rfl
  | cons key keys ih =>
    obtain ⟨bytes, hkey, hget, hsize, hindex⟩ := h key List.mem_cons_self
    have hstarts : stripPrefix key "packs/" = some (sha.hex bytes) := by
      rw [hkey]
      exact stripPrefix_append "packs/" (sha.hex bytes)
    have hpack : exec (Store.turn etag) (s, [])
        (materializePack sha git key (sha.hex bytes) options.maxPackBytes) =
        (.ok bytes.size, s, []) := by
      rw [materializePack, if_neg (by simp [isDigestText_of_digest (sha.hex_isDigest bytes)])]
      exact exec_exceptBind_ok.mpr ⟨bytes, (s, []), exec_readVerifiedLimited hget rfl hsize,
        exec_exceptBind_ok.mpr ⟨(), (s, []), exec_installOrGenerateIdx hindex, rfl⟩⟩
    have hpackSize : packSize s key = bytes.size := by
      rw [packSize, hget]
      rfl
    have htotal : hydrated + packSizes s (key :: keys) =
        hydrated + bytes.size + packSizes s keys := by
      simp only [packSizes, List.map_cons, List.sum_cons, hpackSize]
      omega
    rw [htotal] at hbudget ⊢
    obtain ⟨hrepo, hoverflow⟩ := hbudget.resolve_left (List.cons_ne_nil _ _)
    unfold materializePacks
    rw [hstarts]
    refine exec_exceptBind_ok.mpr ⟨bytes.size, (s, []), hpack, ?_⟩
    rw [if_neg (by omega), if_neg (by omega), if_neg (by omega)]
    exact ih (fun key' hmem => h key' (List.mem_cons_of_mem _ hmem)) (Or.inr ⟨hrepo, hoverflow⟩)

/-! ## Hydration of what is at the pointer -/

theorem installRefs_ok {m : Manifest} (h : m.Valid) : installRefs m = .ok () := by
  have hrefs : m.refs.entries.forM checkInstalledRef = .ok () := by
    rw [forM_ok_iff]
    intro r hr
    rw [checkInstalledRef, if_neg (by simp [(h.refs r hr).1]), if_neg (by simp [(h.refs r hr).2])]
  simp only [installRefs, hrefs, h.head]
  rfl

/-- The pointer names a manifest that the store holds. -/
structure Published (sha : Sha256) (s : Store) (pkey : String) (m : Manifest) : Prop where
  pointer : s.pointers.get? pkey = some (m.body sha)
  stored : s.objects.get? (contentKey sha "manifests" m.canonicalBytes) = some m.canonicalBytes
  version : m.version = manifestVersion
  canonical : m.canonical = m
  valid : m.Valid

/-- Both hydrations go through, where nobody else asks anything. -/
def Hydrates (sha : Sha256) (git : GitTool) (etag : ByteArray → ETag) (options : HydrationOptions)
    (pkey : String) (s : Store) : Prop :=
  (∃ repo st, exec (Store.turn etag) (s, []) (hydrateForRead sha git options pkey) =
      (.ok (some repo), st)) ∧
    ∃ repo parentState st, exec (Store.turn etag) (s, []) (hydrateForWrite sha git options pkey) =
      (.ok (repo, parentState), st)

theorem exec_getPointer (s : Store) (pkey : String) :
    exec (Store.turn etag) (s, []) (getPointer pkey) =
      (.ok ((s.pointers.get? pkey).map fun body => (etag body, body)), s, []) := rfl

theorem Published.exec_loadManifest {m : Manifest} (h : Published sha s pkey m)
    (hsize : m.canonicalBytes.size ≤ maxManifestBytes) :
    exec (Store.turn etag) (s, []) (loadManifest sha (sha.hex m.canonicalBytes)) =
      (.ok m, s, []) := by
  refine exec_exceptBind_ok.mpr ⟨_, _, exec_readVerifiedLimited h.stored rfl hsize, ?_⟩
  refine exec_exceptBind_ok.mpr ⟨m, (s, []), ?_, ?_⟩
  · rw [exec_ofExcept, fromBytes_canonicalBytes m h.version, h.canonical]
    rfl
  · refine exec_exceptBind_ok.mpr ⟨(), (s, []), ?_, rfl⟩
    rw [exec_ofExcept, (validate_ok_iff m).mpr h.valid]
    rfl

theorem Published.exec_loadPointer {m : Manifest} (h : Published sha s pkey m)
    (hsize : m.canonicalBytes.size ≤ maxManifestBytes) :
    exec (Store.turn etag) (s, []) (loadPointer sha pkey) =
      (.ok (some (etag (m.body sha), sha.hex m.canonicalBytes, m)), s, []) := by
  refine exec_exceptBind_ok.mpr ⟨some (etag (m.body sha), m.body sha), (s, []), ?_, ?_⟩
  · rw [exec_mapError_ok, exec_getPointer, h.pointer]
    rfl
  · simp only [loadFrom, pointerDigest_body]
    exact exec_exceptBind_ok.mpr ⟨m, _, h.exec_loadManifest hsize, rfl⟩

theorem exec_materializeManifest {m : Manifest} (hvalid : m.Valid)
    (hpacks : ∀ key ∈ m.packs, PackReadable sha git options s key)
    (hbudget : BudgetHolds options m.packs (packSizes s m.packs)) :
    exec (Store.turn etag) (s, []) (materializeManifest sha git options m) =
      (.ok ⟨packSizes s m.packs, m.packs.length⟩, s, []) := by
  refine exec_exceptBind_ok.mpr ⟨packSizes s m.packs, (s, []), ?_, ?_⟩
  · rw [exec_materializePacks hpacks (by rwa [Nat.zero_add]), Nat.zero_add]
  · refine exec_exceptBind_ok.mpr ⟨(), (s, []), ?_, rfl⟩
    rw [exec_ofExcept, installRefs_ok hvalid]

theorem Published.loadPointer_ok {m : Manifest} (h : Published sha s pkey m)
    {loaded : Option (ETag × String × Manifest)} {st : Store × List Turn}
    (hload : exec (Store.turn etag) (s, []) (loadPointer sha pkey) = (.ok loaded, st)) :
    m.canonicalBytes.size ≤ maxManifestBytes := by
  obtain ⟨pointer, t, hpointer, hload⟩ := exec_exceptBind_ok.mp hload
  rw [exec_mapError_ok, exec_getPointer, h.pointer] at hpointer
  cases hpointer
  simp only [loadFrom, pointerDigest_body, Option.map_some] at hload
  obtain ⟨m', u, hmanifest, -⟩ := exec_exceptBind_ok.mp hload
  obtain ⟨bytes, v, hread, -⟩ := exec_exceptBind_ok.mp hmanifest
  obtain ⟨hget, -, hsize⟩ := readVerifiedLimited_ok hread
  have hstored := grown_of_exec hread _ _ h.stored
  cases hget.symm.trans hstored
  exact hsize

theorem Published.hydrates_iff {m : Manifest} (h : Published sha s pkey m) :
    Hydrates sha git etag options pkey s ↔
      m.canonicalBytes.size ≤ maxManifestBytes ∧
        (∀ key ∈ m.packs, PackReadable sha git options s key) ∧
          BudgetHolds options m.packs (packSizes s m.packs) := by
  constructor
  · rintro ⟨⟨repo, st, hread⟩, -⟩
    obtain ⟨loaded, t, hload, hread⟩ := exec_exceptBind_ok.mp hread
    have hsize := h.loadPointer_ok hload
    rw [h.exec_loadPointer hsize] at hload
    cases hload
    obtain ⟨repo', u, hmaterialize, -⟩ := exec_exceptBind_ok.mp hread
    obtain ⟨total, v, hpacks, -⟩ := exec_exceptBind_ok.mp hmaterialize
    have hv : v = (s, []) := by
      rw [← @exec_readOnly etag _ _ (readOnly_materializePacks sha git options m.packs 0) s, hpacks]
    obtain ⟨hreadable, htotal, hbudget⟩ := materializePacks_ok hpacks
    rw [Nat.zero_add] at htotal
    rw [htotal, hv] at hbudget
    rw [hv] at hreadable
    exact ⟨hsize, hreadable, hbudget⟩
  · rintro ⟨hsize, hpacks, hbudget⟩
    have hmaterialize := @exec_materializeManifest etag s sha git options m h.valid hpacks hbudget
    let repo : HydratedRepo := ⟨packSizes s m.packs, m.packs.length⟩
    constructor
    · refine ⟨repo, (s, []), exec_exceptBind_ok.mpr ⟨_, _, h.exec_loadPointer hsize, ?_⟩⟩
      exact exec_exceptBind_ok.mpr ⟨repo, _, hmaterialize, rfl⟩
    · refine ⟨repo, .fromLoaded (etag (m.body sha)) (sha.hex m.canonicalBytes) m, (s, []),
        exec_exceptBind_ok.mpr ⟨_, _, h.exec_loadPointer hsize, ?_⟩⟩
      exact exec_exceptBind_ok.mpr ⟨repo, _, hmaterialize, rfl⟩

end

end Vingilot.Git
