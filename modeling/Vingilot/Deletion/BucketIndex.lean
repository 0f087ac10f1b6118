import Vingilot.Deletion.Rules
import Vingilot.Lib.Codes
import Vingilot.Lib.Json
import Vingilot.Lib.Chars

/-!
# The keys that a community owns in the bucket (`buzz-media/src/bucket_index.rs`)

`classify_key` and `is_tenant_owned_key`, and `enumerate_tenant_prefixes` of the deletion
executor, which stops at every key that is not owned. Whatever the shapes admit is ASCII, so
lengths in characters are lengths in bytes.
-/

namespace Vingilot.Deletion

/-! ## Parts of a key -/

def isLowerHex (c : Char) : Bool := c.isDigit || ('a' ≤ c && c ≤ 'f')

def isSha256 (s : List Char) : Bool := s.length == 64 && s.all isLowerHex

def isBlobExt (s : List Char) : Bool := !s.isEmpty && decide (s.length ≤ 8) && s.all Char.isAlphanum

def isUlidCharset (s : List Char) : Bool :=
  s.length == 26 && s.all fun c =>
    c.isDigit || ('A' ≤ c && c ≤ 'H') || c == 'J' || c == 'K' || c == 'M' || c == 'N' ||
      ('P' ≤ c && c ≤ 'T') || ('V' ≤ c && c ≤ 'Z')

def canonicalAt (c : Char) (i : Nat) : Bool :=
  if i = 8 ∨ i = 13 ∨ i = 18 ∨ i = 23 then c == '-' else isLowerHex c

/-- `Uuid::parse_str` of a canonical text. -/
def parseStr (s : List Char) : Uuid :=
  BitVec.ofNat 128 <| s.foldl (fun n c => if c = '-' then n else 16 * n + (Json.hexValue c).getD 0) 0

def parseCanonicalUuid (s : List Char) : Option Uuid :=
  if s.length ≠ 36 then none
  else if s.zipIdx.all fun (c, i) => canonicalAt c i then some (parseStr s)
  else none

/-! ## Keys -/

inductive KeyClass where
  | thumb (sha256 : List Char)
  | blob (sha256 ext : List Char)
  | sidecar (community : Uuid) (sha256 : List Char)
  | auxiliary (community : Uuid) (sha256 eventId : List Char)
  | unknown

/-- `{sha256}.thumb.jpg`. -/
def parseThumbKey (key : List Char) : Option (List Char) :=
  match key.splitOn '.' with
  | [sha256, thumb, jpg] =>
    if thumb = "thumb".toList ∧ jpg = "jpg".toList ∧ isSha256 sha256 then some sha256 else none
  | _ => none

/-- `{sha256}.{ext}`. -/
def parseBlobKey (key : List Char) : Option (List Char × List Char) :=
  match key.splitOn '.' with
  | [sha256, ext] => if isSha256 sha256 ∧ isBlobExt ext then some (sha256, ext) else none
  | _ => none

/-- `{stem}.json`, the last segment of a sidecar and of an upload record. -/
def jsonStem (isStem : List Char → Bool) (last : List Char) : Option (List Char) :=
  match last.splitOn '.' with
  | [stem, json] => if json = "json".toList ∧ isStem stem then some stem else none
  | _ => none

/-- `_meta/{community}/{sha256}.json`. -/
def parseSidecarKey (key : List Char) : Option (Uuid × List Char) :=
  match key.splitOn '/' with
  | [first, owner, last] =>
    match parseCanonicalUuid owner, jsonStem isSha256 last with
    | some community, some sha256 =>
      if first = "_meta".toList then some (community, sha256) else none
    | _, _ => none
  | _ => none

/-- `_uploads/{community}/{sha256}/{event_id}.json`. -/
def parseAuxiliaryKey (key : List Char) : Option (Uuid × List Char × List Char) :=
  match key.splitOn '/' with
  | [first, owner, sha256, last] =>
    match parseCanonicalUuid owner, jsonStem isUlidCharset last with
    | some community, some eventId =>
      if first = "_uploads".toList ∧ isSha256 sha256 then some (community, sha256, eventId) else none
    | _, _ => none
  | _ => none

def classifyKey (key : List Char) : KeyClass :=
  match parseThumbKey key, parseBlobKey key, parseSidecarKey key, parseAuxiliaryKey key with
  | some sha256, _, _, _ => .thumb sha256
  | _, some (sha256, ext), _, _ => .blob sha256 ext
  | _, _, some (community, sha256), _ => .sidecar community sha256
  | _, _, _, some (community, sha256, eventId) => .auxiliary community sha256 eventId
  | _, _, _, _ => .unknown

def isRepoName (repo : List Char) : Bool :=
  !repo.isEmpty && decide (repo.length ≤ 64) && repo.head? != some '.' &&
    !Text.contains repo "..".toList &&
    repo.all fun c => c.isAlphanum || c == '.' || c == '_' || c == '-'

def isHexDigit (c : Char) : Bool := isLowerHex c || ('A' ≤ c && c ≤ 'F')

/-- `repos/{community}/{owner}/{repo}/pointer`. -/
def gitPointerCommunity (key : List Char) : Option Uuid :=
  match key.splitOn '/' with
  | [first, tenant, owner, repo, pointer] =>
    match parseCanonicalUuid tenant with
    | some community =>
      if first = "repos".toList ∧ owner.length = 64 ∧ owner.all isHexDigit ∧ isRepoName repo ∧
          pointer = "pointer".toList then
        some community
      else none
    | none => none
  | _ => none

def isTenantOwnedKey (community : Uuid) (key : String) : Bool :=
  match classifyKey key.toList with
  | .sidecar owner _ | .auxiliary owner _ _ => owner == community
  | .unknown => gitPointerCommunity key.toList == some community
  | .blob _ _ | .thumb _ => false

/-! ## Enumeration -/

def tenantPrefixes (community : Uuid) : List String :=
  ["_meta/" ++ community.toText ++ "/", "_uploads/" ++ community.toText ++ "/",
    "repos/" ++ community.toText ++ "/"]

inductive EnumerationError where
  | permanent (text : String)
  | db (error : DbError)
deriving DecidableEq

def u64Max : Nat := 18446744073709551615

def enumerateObjects (community : Uuid) :
    List (String × Nat) → KeyStreamDigest → Nat → Except EnumerationError (KeyStreamDigest × Nat)
  | [], digest, totalBytes => .ok (digest, totalBytes)
  | (key, size) :: objects, digest, totalBytes =>
    if !isTenantOwnedKey community key then
      .error (.permanent
        s!"key under a tenant prefix is outside the exact writer taxonomy: {key}")
    else
      match digest.fold key with
      | .ok digest => enumerateObjects community objects digest (min (totalBytes + size) u64Max)
      | .error e => .error (.db e)

def enumeratePrefix (env : Env) (community : Uuid) (listing : String → List (String × Nat))
    (keyPrefix : String) : Except EnumerationError PrefixManifest := do
  let (digest, totalBytes) ← enumerateObjects community (listing keyPrefix) .new 0
  let (keysDigest, objectCount) := digest.finish env
  return { keyPrefix, objectCount, totalBytes, keysDigest }

/-- `enumerate_tenant_prefixes`. `listing` is what the object store lists under a prefix. -/
def enumerateTenantPrefixes (env : Env) (community : Uuid)
    (listing : String → List (String × Nat)) : Except EnumerationError StorageManifest := do
  let prefixes ← (tenantPrefixes community).mapM (enumeratePrefix env community listing)
  match validateStorageManifest ⟨4, prefixes⟩ with
  | .ok _ => return ⟨4, prefixes⟩
  | .error e => .error (.db e)

/-! ## What an owned key is made of -/

def isKeyChar (c : Char) : Bool :=
  c.isAlphanum || c == '/' || c == '.' || c == '_' || c == '-'

theorem isKeyChar_of_isLowerHex {c : Char} (h : isLowerHex c) : isKeyChar c := by
  simp only [isLowerHex, Bool.or_eq_true, Bool.and_eq_true, decide_eq_true_eq] at h
  unfold isKeyChar Char.isAlphanum Char.isAlpha
  rcases h with hdigit | ⟨hlow, hhigh⟩
  · simp [hdigit]
  · have hz : c.isLower = true := by
      unfold Char.isLower
      simp only [Bool.and_eq_true, decide_eq_true_eq]
      exact ⟨hlow, Char.le_trans hhigh (by decide : 'f' ≤ 'z')⟩
    simp [hz]

theorem isKeyChar_of_upper {c : Char} (hlow : 'A' ≤ c) (hhigh : c ≤ 'Z') : isKeyChar c := by
  have hupper : c.isUpper = true := by
    unfold Char.isUpper
    simp only [decide_eq_true_eq]
    exact ⟨hlow, hhigh⟩
  unfold isKeyChar Char.isAlphanum Char.isAlpha
  simp [hupper]

variable {s : List Char}

theorem isKeyChar_of_isSha256 (h : isSha256 s) : ∀ c ∈ s, isKeyChar c := by
  simp only [isSha256, Bool.and_eq_true, List.all_eq_true] at h
  intro c hc
  exact isKeyChar_of_isLowerHex (h.2 c hc)

theorem isKeyChar_of_isUlidCharset (h : isUlidCharset s) : ∀ c ∈ s, isKeyChar c := by
  simp only [isUlidCharset, Bool.and_eq_true, List.all_eq_true, Bool.or_eq_true, decide_eq_true_eq,
    beq_iff_eq] at h
  intro c hc
  rcases h.2 c hc with ((((((hdigit | hAH) | rfl) | rfl) | rfl) | rfl) | hPT) | hVZ
  · exact isKeyChar_of_isLowerHex (by simp [isLowerHex, hdigit])
  · exact isKeyChar_of_upper hAH.1 (Char.le_trans hAH.2 (by decide : 'H' ≤ 'Z'))
  · rfl
  · rfl
  · rfl
  · rfl
  · exact isKeyChar_of_upper (Char.le_trans (by decide : 'A' ≤ 'P') hPT.1)
      (Char.le_trans hPT.2 (by decide : 'T' ≤ 'Z'))
  · exact isKeyChar_of_upper (Char.le_trans (by decide : 'A' ≤ 'V') hVZ.1) hVZ.2

theorem isKeyChar_of_parseCanonicalUuid {id : Uuid} (h : parseCanonicalUuid s = some id) :
    ∀ c ∈ s, isKeyChar c := by
  unfold parseCanonicalUuid at h
  split_ifs at h with hlength hall
  intro c hc
  obtain ⟨i, hi, rfl⟩ := List.mem_iff_getElem.mp hc
  have hat := List.all_eq_true.mp hall (s[i], i) (by simp [List.mem_zipIdx_iff_getElem?])
  simp only [canonicalAt] at hat
  split_ifs at hat
  · rw [eq_of_beq hat]
    decide
  · exact isKeyChar_of_isLowerHex hat

theorem isKeyChar_of_jsonStem {isStem : List Char → Bool}
    (hstem : ∀ s, isStem s → ∀ c ∈ s, isKeyChar c) {last stem : List Char}
    (h : jsonStem isStem last = some stem) : ∀ c ∈ last, isKeyChar c := by
  unfold jsonStem at h
  split at h
  · rename_i stem' json hsplit
    split_ifs at h with hparts
    obtain ⟨rfl, hstem'⟩ := hparts
    refine Codes.mem_of_splitOn '.' rfl ?_
    rw [hsplit]
    simp only [List.mem_cons, List.not_mem_nil, or_false, forall_eq_or_imp, forall_eq]
    exact ⟨hstem stem' hstem', List.all_eq_true.mp rfl⟩
  · cases h

variable {key : List Char}

theorem isKeyChar_of_parseSidecarKey {r : Uuid × List Char} (h : parseSidecarKey key = some r) :
    ∀ c ∈ key, isKeyChar c := by
  unfold parseSidecarKey at h
  split at h
  · rename_i first owner last hsplit
    split at h
    · rename_i community sha256 howner hlast
      split_ifs at h with hfirst
      refine Codes.mem_of_splitOn '/' rfl ?_
      rw [hsplit, hfirst]
      simp only [List.mem_cons, List.not_mem_nil, or_false, forall_eq_or_imp, forall_eq]
      exact ⟨List.all_eq_true.mp rfl, isKeyChar_of_parseCanonicalUuid howner,
        isKeyChar_of_jsonStem (fun _ => isKeyChar_of_isSha256) hlast⟩
    · cases h
  · cases h

theorem isKeyChar_of_parseAuxiliaryKey {r : Uuid × List Char × List Char}
    (h : parseAuxiliaryKey key = some r) : ∀ c ∈ key, isKeyChar c := by
  unfold parseAuxiliaryKey at h
  split at h
  · rename_i first owner sha256 last hsplit
    split at h
    · rename_i community eventId howner hlast
      split_ifs at h with hparts
      refine Codes.mem_of_splitOn '/' rfl ?_
      rw [hsplit, hparts.1]
      simp only [List.mem_cons, List.not_mem_nil, or_false, forall_eq_or_imp, forall_eq]
      exact ⟨List.all_eq_true.mp rfl, isKeyChar_of_parseCanonicalUuid howner,
        isKeyChar_of_isSha256 hparts.2, isKeyChar_of_jsonStem (fun _ => isKeyChar_of_isUlidCharset) hlast⟩
    · cases h
  · cases h

variable {community : Uuid}

theorem isKeyChar_of_gitPointerCommunity (h : gitPointerCommunity key = some community) :
    ∀ c ∈ key, isKeyChar c := by
  unfold gitPointerCommunity at h
  split at h
  · rename_i first tenant owner repo pointer hsplit
    split at h
    · rename_i community' htenant
      split_ifs at h with hparts
      obtain ⟨hfirst, -, howner, hrepo, hpointer⟩ := hparts
      refine Codes.mem_of_splitOn '/' rfl ?_
      rw [hsplit, hfirst, hpointer]
      simp only [List.mem_cons, List.not_mem_nil, or_false, forall_eq_or_imp, forall_eq]
      refine ⟨List.all_eq_true.mp rfl, isKeyChar_of_parseCanonicalUuid htenant, ?_, ?_,
        List.all_eq_true.mp rfl⟩
      · intro c hc
        have hhex := List.all_eq_true.mp howner c hc
        simp only [isHexDigit, Bool.or_eq_true, Bool.and_eq_true, decide_eq_true_eq] at hhex
        rcases hhex with hlower | ⟨hlow, hhigh⟩
        · exact isKeyChar_of_isLowerHex hlower
        · exact isKeyChar_of_upper hlow (Char.le_trans hhigh (by decide : 'F' ≤ 'Z'))
      · simp only [isRepoName, Bool.and_eq_true, List.all_eq_true, Bool.or_eq_true,
          beq_iff_eq] at hrepo
        intro c hc
        rcases hrepo.2 c hc with ((halnum | rfl) | rfl) | rfl
        · simp [isKeyChar, halnum]
        · rfl
        · rfl
        · rfl
    · cases h
  · cases h

theorem parseSidecarKey_of_class {sha256 : List Char}
    (h : classifyKey key = .sidecar community sha256) :
    parseSidecarKey key = some (community, sha256) := by
  unfold classifyKey at h
  split at h <;> cases h
  assumption

theorem parseAuxiliaryKey_of_class {sha256 eventId : List Char}
    (h : classifyKey key = .auxiliary community sha256 eventId) :
    parseAuxiliaryKey key = some (community, sha256, eventId) := by
  unfold classifyKey at h
  split at h <;> cases h
  assumption

theorem isKeyChar_of_owned {key : String} (h : isTenantOwnedKey community key) :
    ∀ c ∈ key.toList, isKeyChar c := by
  unfold isTenantOwnedKey at h
  split at h
  · rename_i hclass
    exact isKeyChar_of_parseSidecarKey (parseSidecarKey_of_class hclass)
  · rename_i hclass
    exact isKeyChar_of_parseAuxiliaryKey (parseAuxiliaryKey_of_class hclass)
  · exact isKeyChar_of_gitPointerCommunity (eq_of_beq h)
  · cases h
  · cases h

end Vingilot.Deletion
