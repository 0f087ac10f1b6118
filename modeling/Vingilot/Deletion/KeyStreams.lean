import Vingilot.Deletion.BucketIndex
import Vingilot.Deletion.Effects

/-!
# Which key lists the digest of a key stream tells apart

Every key is hashed with a line break after it. Two lists of equally many keys give the same
stream exactly when they are cut from it at other line breaks, so a list whose keys have none is
told apart from all others. The enumeration lets only such keys in.
-/

namespace Vingilot.Deletion

open Codes Program

/-! ## Streams -/

def KeyStreamDigest.foldAll : List String → KeyStreamDigest → Except DbError KeyStreamDigest
  | [], d => .ok d
  | key :: keys, d => do KeyStreamDigest.foldAll keys (← d.fold key)

def keyStream (keys : List String) : List Char := terminated '\n' (keys.map String.toList)

def lineBreaks (key : String) : Nat := key.toList.count '\n'

def OneLine (key : String) : Prop := '\n' ∉ key.toList

variable {key : String} {keys : List String}

section Fold

variable {d e : KeyStreamDigest}

theorem foldAll_cons : KeyStreamDigest.foldAll (key :: keys) d = .ok e ↔
      ∃ d', d.fold key = .ok d' ∧ KeyStreamDigest.foldAll keys d' = .ok e :=
  exceptBind_ok

theorem foldAll_append {xs ys : List String} :
    KeyStreamDigest.foldAll (xs ++ ys) d = .ok e ↔
      ∃ d', KeyStreamDigest.foldAll xs d = .ok d' ∧ KeyStreamDigest.foldAll ys d' = .ok e := by
  induction xs generalizing d with
  | nil => simp [KeyStreamDigest.foldAll]
  | cons x xs ih =>
    simp only [List.cons_append, foldAll_cons, ih]
    constructor
    · rintro ⟨d₁, hx, d₂, hxs, hys⟩
      exact ⟨d₂, ⟨d₁, hx, hxs⟩, hys⟩
    · rintro ⟨d₂, ⟨d₁, hx, hxs⟩, hys⟩
      exact ⟨d₁, hx, d₂, hxs, hys⟩

theorem fold_ok (h : d.fold key = .ok e) :
    e.stream = d.stream ++ key ++ "\n" ∧ e.count = d.count + 1 := by
  unfold KeyStreamDigest.fold at h
  split_ifs at h
  cases h
  exact ⟨rfl, rfl⟩

theorem foldAll_ok (h : KeyStreamDigest.foldAll keys d = .ok e) :
    e.stream.toList = d.stream.toList ++ keyStream keys ∧ e.count = d.count + keys.length := by
  induction keys generalizing d with
  | nil =>
    cases h
    simp [keyStream, terminated]
  | cons key keys ih =>
    obtain ⟨d', hkey, hkeys⟩ := foldAll_cons.mp h
    obtain ⟨hstream, hcount⟩ := ih hkeys
    obtain ⟨hfirst, hone⟩ := fold_ok hkey
    constructor
    · rw [hstream, hfirst]
      simp [keyStream, terminated]
    · rw [hcount, hone, List.length_cons]
      omega

theorem foldAll_new (h : KeyStreamDigest.foldAll keys .new = .ok e) :
    e.stream.toList = keyStream keys ∧ e.count = keys.length := by
  obtain ⟨hstream, hcount⟩ := foldAll_ok h
  exact ⟨by simpa [KeyStreamDigest.new] using hstream, by simpa [KeyStreamDigest.new] using hcount⟩

end Fold

/-! ## Streams that are the same -/

section Same

variable {xs ys : List String} {d e : KeyStreamDigest}

theorem map_toList_inj (h : xs.map String.toList = ys.map String.toList) : xs = ys :=
  List.map_injective_iff.mpr (fun _ _ => String.toList_inj.mp) h

theorem eq_of_lineBreaks (hx : KeyStreamDigest.foldAll xs .new = .ok d)
    (hy : KeyStreamDigest.foldAll ys .new = .ok e) (hstream : d.stream = e.stream)
    (hbreaks : xs.map lineBreaks = ys.map lineBreaks) : xs = ys := by
  have h : keyStream xs = keyStream ys := by
    rw [← (foldAll_new hx).1, ← (foldAll_new hy).1, hstream]
  refine map_toList_inj (terminated_inj ?_ h)
  rw [List.map_map, List.map_map]
  exact hbreaks

theorem eq_of_oneLine (hx : KeyStreamDigest.foldAll xs .new = .ok d)
    (hy : KeyStreamDigest.foldAll ys .new = .ok e) (hstream : d.stream = e.stream)
    (hcount : d.count = e.count) (hone : ∀ key ∈ xs, OneLine key) : xs = ys := by
  have h : keyStream xs = keyStream ys := by
    rw [← (foldAll_new hx).1, ← (foldAll_new hy).1, hstream]
  have hlength : xs.length = ys.length := by
    rw [← (foldAll_new hx).2, ← (foldAll_new hy).2, hcount]
  refine map_toList_inj (terminated_inj_of_free ?_ (by simpa using hlength) h)
  simpa [OneLine] using hone

end Same

/-! ## Accepted chunks -/

def keysUnder (keyPrefix : String) (chunks : List (Int × Chunk)) : List String :=
  chunks.flatMap fun c => if c.2.keyPrefix = keyPrefix then c.2.keys else []

def Completes (env : Env) (summary : PrefixManifest) (digest : KeyStreamDigest)
    (keys : List String) : Prop :=
  ∃ e, KeyStreamDigest.foldAll keys digest = .ok e ∧
    e.finish env = (summary.keysDigest, summary.objectCount)

def Covers (env : Env) (digest : KeyStreamDigest) (chunks : List (Int × Chunk)) :
    List PrefixManifest → Prop
  | [] => True
  | summary :: rest =>
    Completes env summary digest (keysUnder summary.keyPrefix chunks) ∧
      ∀ other ∈ rest, Completes env other .new (keysUnder other.keyPrefix chunks)

variable {keyPrefix : String} {chunks : List (Int × Chunk)} {digest : KeyStreamDigest}
  {remaining : List PrefixManifest} {manifest : StorageManifest}

section Validation

variable {env : Env}

theorem keysUnder_cons (keyPrefix : String) (chunkNo : Int) (chunk : Chunk)
    (chunks : List (Int × Chunk)) :
    keysUnder keyPrefix ((chunkNo, chunk) :: chunks) =
      (if chunk.keyPrefix = keyPrefix then chunk.keys else []) ++ keysUnder keyPrefix chunks :=
  rfl

theorem keysUnder_eq_nil (h : ∀ c ∈ chunks, c.2.keyPrefix ≠ keyPrefix) :
    keysUnder keyPrefix chunks = [] := by
  simp only [keysUnder, List.flatMap_eq_nil_iff]
  intro c hc
  rw [if_neg (h c hc)]

theorem closePrefix_ok {summary : PrefixManifest} (h : closePrefix env summary digest = .ok ()) :
    Completes env summary digest [] :=
  ⟨digest, rfl, eq_of_beq (require_ok.mp h)⟩

theorem forM_ok {α : Type} {f : α → Except DbError Unit} {xs : List α}
    (h : xs.forM f = .ok ()) : ∀ x ∈ xs, f x = .ok () := by
  induction xs with
  | nil => simp
  | cons x xs ih =>
    obtain ⟨⟨⟩, hx, hxs⟩ := exceptBind_ok.mp h
    simpa [hx] using ih hxs

theorem foldKeys_ok {e : KeyStreamDigest} (h : foldKeys keyPrefix keys digest = .ok e) :
    KeyStreamDigest.foldAll keys digest = .ok e := by
  induction keys generalizing digest with
  | nil => exact h
  | cons key keys ih =>
    obtain ⟨⟨⟩, -, hrest⟩ := exceptBind_ok.mp h
    obtain ⟨d, hkey, hkeys⟩ := exceptBind_ok.mp hrest
    exact foldAll_cons.mpr ⟨d, hkey, ih hkeys⟩

theorem seekPrefix_ok {remaining' : List PrefixManifest} {digest' : KeyStreamDigest}
    (h : seekPrefix env keyPrefix remaining digest = .ok (remaining', digest')) :
    remaining' <:+ remaining ∧ ∃ summary rest, remaining' = summary :: rest ∧
      summary.keyPrefix = keyPrefix := by
  induction remaining generalizing digest with
  | nil => cases h
  | cons summary rest ih =>
    unfold seekPrefix at h
    split_ifs at h with hsame
    · cases h
      exact ⟨List.suffix_refl _, summary, rest, rfl, hsame⟩
    · obtain ⟨⟨⟩, -, hrest⟩ := exceptBind_ok.mp h
      obtain ⟨hsuffix, hhead⟩ := ih hrest
      exact ⟨hsuffix.trans (List.suffix_cons _ _), hhead⟩

theorem covers_of_seek {remaining' : List PrefixManifest} {digest' : KeyStreamDigest}
    (h : seekPrefix env keyPrefix remaining digest = .ok (remaining', digest'))
    (hdistinct : (remaining.map PrefixManifest.keyPrefix).Nodup)
    (hprefixes : ∀ c ∈ chunks, c.2.keyPrefix ∈ remaining'.map PrefixManifest.keyPrefix)
    (hcovers : Covers env digest' chunks remaining') : Covers env digest chunks remaining := by
  induction remaining generalizing digest with
  | nil => trivial
  | cons summary rest ih =>
    unfold seekPrefix at h
    split_ifs at h with hsame
    · cases h
      exact hcovers
    · obtain ⟨⟨⟩, hclose, hrest⟩ := exceptBind_ok.mp h
      rw [List.map_cons, List.nodup_cons] at hdistinct
      have hothers := ih hrest hdistinct.2
      have hnone : keysUnder summary.keyPrefix chunks = [] := by
        refine keysUnder_eq_nil fun c hc heq => hdistinct.1 ?_
        rw [← heq]
        exact ((seekPrefix_ok hrest).1.map _).subset (hprefixes c hc)
      refine ⟨by rw [hnone]; exact closePrefix_ok hclose, ?_⟩
      cases rest with
      | nil => simp
      | cons next rest => simpa [Covers] using hothers

theorem validateChunksFrom_cons (index : Nat) (remaining : List PrefixManifest)
    (digest : KeyStreamDigest) (chunkNo : Int) (chunk : Chunk) (chunks : List (Int × Chunk)) :
    validateChunksFrom env index remaining digest ((chunkNo, chunk) :: chunks) = (do
      require (chunkNo == index) (.deletionSafety "frozen key chunk sequence has gaps")
      let (remaining, digest) ← seekPrefix env chunk.keyPrefix remaining digest
      require (!chunk.keys.isEmpty) (.deletionSafety "frozen key chunk is empty")
      let digest ← foldKeys chunk.keyPrefix chunk.keys digest
      validateChunksFrom env (index + 1) remaining digest chunks) := by
  cases remaining <;> rfl

theorem validateChunksFrom_ok {index : Nat}
    (h : validateChunksFrom env index remaining digest chunks = .ok ())
    (hdistinct : (remaining.map PrefixManifest.keyPrefix).Nodup) :
    (∀ c ∈ chunks, c.2.keyPrefix ∈ remaining.map PrefixManifest.keyPrefix) ∧
      Covers env digest chunks remaining := by
  induction chunks generalizing index remaining digest with
  | nil =>
    refine ⟨by simp, ?_⟩
    cases remaining with
    | nil => trivial
    | cons summary rest =>
      unfold validateChunksFrom at h
      obtain ⟨⟨⟩, hclose, hrest⟩ := exceptBind_ok.mp h
      exact ⟨closePrefix_ok hclose, fun other hother => closePrefix_ok (forM_ok hrest other hother)⟩
  | cons c chunks ih =>
    obtain ⟨chunkNo, chunk⟩ := c
    rw [validateChunksFrom_cons] at h
    obtain ⟨⟨⟩, -, h⟩ := exceptBind_ok.mp h
    obtain ⟨⟨remaining', digest'⟩, hseek, h⟩ := exceptBind_ok.mp h
    obtain ⟨⟨⟩, -, h⟩ := exceptBind_ok.mp h
    obtain ⟨e, hfold, hrest⟩ := exceptBind_ok.mp h
    obtain ⟨hsuffix, summary, rest, rfl, hsame⟩ := seekPrefix_ok hseek
    have hnodup : ((summary :: rest).map PrefixManifest.keyPrefix).Nodup :=
      hdistinct.sublist (hsuffix.map _).sublist
    obtain ⟨hprefixes, ⟨f, hall, hfinish⟩, hothers⟩ := ih hrest hnodup
    have hchunks : ∀ c ∈ (chunkNo, chunk) :: chunks,
        c.2.keyPrefix ∈ (summary :: rest).map PrefixManifest.keyPrefix := by
      simpa [hsame] using hprefixes
    refine ⟨fun c hc => (hsuffix.map _).subset (hchunks c hc), ?_⟩
    refine covers_of_seek hseek hdistinct hchunks ⟨⟨f, ?_, hfinish⟩, ?_⟩
    · rw [keysUnder_cons, if_pos hsame.symm]
      exact foldAll_append.mpr ⟨e, foldKeys_ok hfold, hall⟩
    · intro other hother
      have hne : chunk.keyPrefix ≠ other.keyPrefix := by
        rintro heq
        rw [List.map_cons, List.nodup_cons, hsame, heq] at hnodup
        exact hnodup.1 (List.mem_map_of_mem hother)
      rw [keysUnder_cons, if_neg hne, List.nil_append]
      exact hothers other hother

theorem validateManifestKeyChunks_ok (h : validateManifestKeyChunks env manifest chunks = .ok ())
    (hdistinct : (manifest.prefixes.map PrefixManifest.keyPrefix).Nodup) :
    (∀ c ∈ chunks, c.2.keyPrefix ∈ manifest.prefixes.map PrefixManifest.keyPrefix) ∧
      ∀ summary ∈ manifest.prefixes,
        Completes env summary .new (keysUnder summary.keyPrefix chunks) := by
  obtain ⟨hprefixes, hcovers⟩ := validateChunksFrom_ok h hdistinct
  refine ⟨hprefixes, ?_⟩
  cases hlist : manifest.prefixes with
  | nil => simp
  | cons summary rest =>
    rw [hlist] at hcovers
    simpa [Covers] using hcovers

end Validation

/-! ## Enumerated keys -/

section Enumeration

variable {env : Env} {community : Uuid} {listing : String → List (String × Nat)}

theorem oneLine_of_owned (h : isTenantOwnedKey community key) : OneLine key := by
  intro hbreak
  have hchar := isKeyChar_of_owned h '\n' hbreak
  revert hchar
  decide

theorem enumerateObjects_ok {objects : List (String × Nat)} {e : KeyStreamDigest}
    {totalBytes total : Nat}
    (h : enumerateObjects community objects digest totalBytes = .ok (e, total)) :
    KeyStreamDigest.foldAll (objects.map Prod.fst) digest = .ok e ∧
      ∀ key ∈ objects.map Prod.fst, OneLine key := by
  induction objects generalizing digest totalBytes with
  | nil =>
    cases h
    exact ⟨rfl, by simp⟩
  | cons object objects ih =>
    obtain ⟨key, size⟩ := object
    unfold enumerateObjects at h
    split_ifs at h with howned
    split at h
    · rename_i d hkey
      obtain ⟨hfold, hone⟩ := ih h
      refine ⟨foldAll_cons.mpr ⟨d, hkey, hfold⟩, ?_⟩
      simp only [List.map_cons, List.mem_cons, forall_eq_or_imp]
      exact ⟨oneLine_of_owned (by simpa using howned), hone⟩
    · cases h

structure Summarises (env : Env) (keys : String → List String) (summary : PrefixManifest) :
    Prop where
  completes : Completes env summary .new (keys summary.keyPrefix)
  oneLine : ∀ key ∈ keys summary.keyPrefix, OneLine key

theorem enumeratePrefix_ok {summary : PrefixManifest}
    (h : enumeratePrefix env community listing keyPrefix = .ok summary) :
    summary.keyPrefix = keyPrefix ∧
      Summarises env (fun p => (listing p).map Prod.fst) summary := by
  obtain ⟨⟨e, total⟩, hobjects, hrest⟩ := exceptBind_ok.mp h
  cases hrest
  obtain ⟨hfold, hone⟩ := enumerateObjects_ok hobjects
  exact ⟨rfl, ⟨e, hfold, rfl⟩, hone⟩

theorem enumeratePrefixes_ok {keyPrefixes : List String} {prefixes : List PrefixManifest}
    (h : keyPrefixes.mapM (enumeratePrefix env community listing) = .ok prefixes) :
    prefixes.map PrefixManifest.keyPrefix = keyPrefixes ∧
      ∀ summary ∈ prefixes, Summarises env (fun p => (listing p).map Prod.fst) summary := by
  induction keyPrefixes generalizing prefixes with
  | nil =>
    cases h
    simp
  | cons keyPrefix keyPrefixes ih =>
    rw [List.mapM_cons] at h
    obtain ⟨summary, hsummary, h⟩ := exceptBind_ok.mp h
    obtain ⟨rest, hrest, h⟩ := exceptBind_ok.mp h
    cases h
    obtain ⟨hsame, hsummarises⟩ := enumeratePrefix_ok hsummary
    obtain ⟨hprefixes, hothers⟩ := ih hrest
    refine ⟨by rw [List.map_cons, hsame, hprefixes], ?_⟩
    simpa [hsummarises] using hothers

theorem nodup_of_validateStorageManifest (h : validateStorageManifest manifest = .ok ()) :
    (manifest.prefixes.map PrefixManifest.keyPrefix).Nodup := by
  obtain ⟨⟨⟩, -, h⟩ := exceptBind_ok.mp h
  obtain ⟨⟨⟩, -, h⟩ := exceptBind_ok.mp h
  obtain ⟨⟨⟩, hsorted, -⟩ := exceptBind_ok.mp h
  have hchain := of_decide_eq_true (require_ok.mp hsorted)
  rw [← List.isChain_map PrefixManifest.keyPrefix, List.isChain_iff_pairwise] at hchain
  refine hchain.imp ?_
  rintro a b hlt rfl
  exact String.lt_irrefl a hlt

theorem enumerateTenantPrefixes_ok
    (h : enumerateTenantPrefixes env community listing = .ok manifest) :
    manifest.prefixes.map PrefixManifest.keyPrefix = tenantPrefixes community ∧
      (manifest.prefixes.map PrefixManifest.keyPrefix).Nodup ∧
      ∀ summary ∈ manifest.prefixes,
        Summarises env (fun p => (listing p).map Prod.fst) summary := by
  obtain ⟨prefixes, hprefixes, h⟩ := exceptBind_ok.mp h
  split at h
  · rename_i hvalid
    cases h
    obtain ⟨hkeyPrefixes, hsummaries⟩ := enumeratePrefixes_ok hprefixes
    exact ⟨hkeyPrefixes, nodup_of_validateStorageManifest hvalid, hsummaries⟩
  · cases h

theorem keysUnder_of_accepted (hfree : Function.Injective env.sha256Hex)
    {keys : String → List String}
    (hdistinct : (manifest.prefixes.map PrefixManifest.keyPrefix).Nodup)
    (hkeys : ∀ summary ∈ manifest.prefixes, Summarises env keys summary)
    (h : validateManifestKeyChunks env manifest chunks = .ok ()) : ∀ summary ∈ manifest.prefixes,
      keysUnder summary.keyPrefix chunks = keys summary.keyPrefix := by
  intro summary hsummary
  obtain ⟨d, hd, hfinish⟩ := (hkeys summary hsummary).completes
  obtain ⟨e, he, hfinish'⟩ := (validateManifestKeyChunks_ok h hdistinct).2 summary hsummary
  have hsame : d.finish env = e.finish env := hfinish.trans hfinish'.symm
  simp only [KeyStreamDigest.finish, Prod.mk.injEq] at hsame
  exact (eq_of_oneLine hd he (hfree hsame.1) hsame.2 (hkeys summary hsummary).oneLine).symm

end Enumeration

/-! ## Results -/

/-- Two ascending lists of equally many keys with the same stream are the same exactly when their
keys have their line breaks in the same places, and in any case when one list has none. With a
collision-free hash, accepted chunks are the summarised keys, if these have no line breaks. Those
that the executor has enumerated have none. -/
theorem key_streams_identified :
    (∀ xs ys d e, KeyStreamDigest.foldAll xs .new = .ok d →
      KeyStreamDigest.foldAll ys .new = .ok e → d.stream = e.stream → d.count = e.count →
        (xs = ys ↔ xs.map lineBreaks = ys.map lineBreaks) ∧
          ((∀ key ∈ xs, OneLine key) → xs = ys)) ∧
      ∀ env : Env, Function.Injective env.sha256Hex → ∀ manifest chunks,
        validateManifestKeyChunks env manifest chunks = .ok () →
          (∀ keys, (manifest.prefixes.map PrefixManifest.keyPrefix).Nodup →
            (∀ summary ∈ manifest.prefixes, Summarises env keys summary) →
              ∀ summary ∈ manifest.prefixes,
                keysUnder summary.keyPrefix chunks = keys summary.keyPrefix) ∧
            ∀ community listing, enumerateTenantPrefixes env community listing = .ok manifest →
              (∀ c ∈ chunks, c.2.keyPrefix ∈ tenantPrefixes community) ∧
                ∀ keyPrefix ∈ tenantPrefixes community,
                  keysUnder keyPrefix chunks = (listing keyPrefix).map Prod.fst := by
  constructor
  · intro xs ys d e hx hy hstream hcount
    refine ⟨⟨fun heq => by rw [heq], eq_of_lineBreaks hx hy hstream⟩, ?_⟩
    exact eq_of_oneLine hx hy hstream hcount
  · intro env hfree manifest chunks hvalid
    refine ⟨fun keys hdistinct hkeys => keysUnder_of_accepted hfree hdistinct hkeys hvalid, ?_⟩
    intro community listing henumerated
    obtain ⟨hprefixes, hdistinct, hsummaries⟩ := enumerateTenantPrefixes_ok henumerated
    obtain ⟨hchunks, -⟩ := validateManifestKeyChunks_ok hvalid hdistinct
    rw [hprefixes] at hchunks
    refine ⟨hchunks, ?_⟩
    intro keyPrefix hmem
    rw [← hprefixes] at hmem
    obtain ⟨summary, hsummary, rfl⟩ := List.mem_map.mp hmem
    exact keysUnder_of_accepted hfree hdistinct hsummaries hvalid summary hsummary

def demoCommunity : Uuid := 1

def demoKeys : List String :=
  ["_meta/00000000-0000-0000-0000-000000000001/" ++
    "abababababababababababababababababababababababababababababababab.json",
    "_meta/00000000-0000-0000-0000-000000000001/" ++
    "cdcdcdcdcdcdcdcdcdcdcdcdcdcdcdcdcdcdcdcdcdcdcdcdcdcdcdcdcdcdcdcd.json"]

def demoStream : String := String.join (demoKeys.map (· ++ "\n"))

def demoListing (keyPrefix : String) : List (String × Nat) :=
  if keyPrefix = "_meta/00000000-0000-0000-0000-000000000001/" then demoKeys.map fun key => (key, 10)
  else []

def demoHash (s : String) : String :=
  if s = demoStream then "b694fa4e0677d54d2c4a682c4a5804aa0a04fe6577c54694d488e10ce207cfcf"
  else if s = "" then "e3b0c44298fc1c149afbf4c8996fb92427ae41e4649b934ca495991b7852b855"
  else "x" ++ s

theorem demoHash_injective : Function.Injective demoHash := by
  intro s t h
  unfold demoHash at h
  split_ifs at h with hs ht ht hs' ht ht ht ht
  · rw [hs, ht]
  · simp at h
  · have hhead := congrArg (fun u => u.toList.head?) h
    simp at hhead
  · simp at h
  · rw [hs', ht]
  · have hhead := congrArg (fun u => u.toList.head?) h
    simp at hhead
  · have hhead := congrArg (fun u => u.toList.head?) h
    simp at hhead
  · have hhead := congrArg (fun u => u.toList.head?) h
    simp at hhead
  · have hlist := congrArg String.toList h
    simp only [String.toList_append, List.append_cancel_left_eq] at hlist
    exact String.toList_inj.mp hlist

def demoEnv : Env := ⟨id, fun _ => [], demoHash⟩

def demoManifest : StorageManifest :=
  ⟨4, [⟨"_meta/00000000-0000-0000-0000-000000000001/", 2, 20, demoHash demoStream⟩,
    ⟨"_uploads/00000000-0000-0000-0000-000000000001/", 0, 0, demoHash ""⟩,
    ⟨"repos/00000000-0000-0000-0000-000000000001/", 0, 0, demoHash ""⟩]⟩

/-- Two chunks of one key each. -/
def demoChunks : List (Int × Chunk) :=
  (demoKeys.zipIdx).map fun (key, n) =>
    ((n : Int), ⟨"_meta/00000000-0000-0000-0000-000000000001/", [key], none⟩)

theorem key_streams_identified_for_two_sidecars :
    ∀ keyPrefix ∈ tenantPrefixes demoCommunity,
      keysUnder keyPrefix demoChunks = (demoListing keyPrefix).map Prod.fst :=
  ((key_streams_identified.2 demoEnv demoHash_injective demoManifest demoChunks
    (by decide +kernel)).2 demoCommunity demoListing (by decide +kernel)).2

/-- Two cuts of one stream, and chunks that are accepted for the other one's manifest. -/
theorem line_breaks_alias :
    (¬ ∀ xs ys d e, KeyStreamDigest.foldAll xs .new = .ok d →
      KeyStreamDigest.foldAll ys .new = .ok e → d.stream = e.stream → d.count = e.count → xs = ys) ∧
      ∃ manifest chunks, validateManifestKeyChunks demoEnv manifest chunks = .ok () ∧
        (∀ summary ∈ manifest.prefixes, Completes demoEnv summary .new ["a", "ab\nac"]) ∧
        keysUnder "a" chunks ≠ ["a", "ab\nac"] := by
  constructor
  · intro h
    have heq := h ["a", "ab\nac"] ["a\nab", "ac"] ⟨"a\nab\nac\n", some "ab\nac", 2⟩
      ⟨"a\nab\nac\n", some "ac", 2⟩ (by decide +kernel) (by decide +kernel) rfl rfl
    simp at heq
  · refine ⟨⟨4, [⟨"a", 2, 0, demoHash "a\nab\nac\n"⟩]⟩, [(0, ⟨"a", ["a\nab", "ac"], none⟩)],
      by decide +kernel, ?_, by decide +kernel⟩
    simp only [List.mem_singleton, forall_eq]
    exact ⟨⟨"a\nab\nac\n", some "ab\nac", 2⟩, by decide +kernel, rfl⟩

end Vingilot.Deletion
