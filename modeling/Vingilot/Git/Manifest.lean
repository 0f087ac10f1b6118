import Mathlib
import Vingilot.Lib.Json
import Vingilot.Lib.OrdMap
import Vingilot.Core
import Vingilot.Lib.Chars

/-! # The manifest and its canonical bytes (`api/git/manifest.rs`)

The manifest is the published state of a repository. It is stored as JSON under the digest
of its bytes.
-/

namespace Vingilot.Git

def manifestVersion : Nat := 1
def maxManifestPacks : Nat := 128
def packCompactionThreshold : Nat := maxManifestPacks * 3 / 4
def maxManifestRefs : Nat := 10000

structure Manifest where
  version : Nat
  head : String
  refs : OrdMap String String
  packs : List String
  parent : Option String
deriving DecidableEq

inductive ManifestError where
  | serde
  | unsupportedVersion (got expected : Nat)
  | unsafeRefName (name : String)
  | malformedOid (refname oid : String)
  | emptyHead
  | malformedParent (parent : String)
  | tooManyPacks (got max : Nat)
  | tooManyRefs (got max : Nat)
  | malformedPackKey (key : String)
deriving DecidableEq

/-! ## Predicates on names -/

def isSafeRefnameChar (c : Char) : Bool :=
  c.isAlphanum || c == '/' || c == '_' || c == '.' || c == '-'

def isSafeRefname (s : String) : Bool :=
  let cs := s.toList
  "refs/".toList.isPrefixOf cs && !(Text.contains cs "..".toList || Text.contains cs "//".toList ||
    cs.head? == some '/' || cs.getLast? == some '/') && cs.all isSafeRefnameChar

/-- `char::is_ascii_hexdigit`. -/
def isHexDigit (c : Char) : Bool :=
  decide ('0' ≤ c ∧ c ≤ '9') || decide ('a' ≤ c ∧ c ≤ 'f') || decide ('A' ≤ c ∧ c ≤ 'F')

def isHexOid (s : String) : Bool :=
  (s.utf8ByteSize == 40 || s.utf8ByteSize == 64) && s.toList.all isHexDigit

def isManifestDigest (s : String) : Bool :=
  s.utf8ByteSize == 64 &&
    s.toList.all fun c => decide ('0' ≤ c ∧ c ≤ '9') || decide ('a' ≤ c ∧ c ≤ 'f')

/-- `str::strip_prefix`. -/
def stripPrefix (s pre : String) : Option String :=
  if pre.toList.isPrefixOf s.toList then some (.ofList (s.toList.drop pre.toList.length)) else none

def isPackKey (s : String) : Bool := (stripPrefix s "packs/").any isManifestDigest

theorem hexDigit_bounds {c : Char} (h : isHexDigit c = true) :
    48 ≤ c.toNat ∧ c.toNat ≤ 57 ∨ 97 ≤ c.toNat ∧ c.toNat ≤ 102 ∨
      65 ≤ c.toNat ∧ c.toNat ≤ 70 := by
  simpa [isHexDigit, Char.le_def, UInt32.le_iff_toNat_le, or_assoc] using h

theorem isHexDigit_of_digest {digest : String} (h : isManifestDigest digest = true) (c : Char)
    (hc : c ∈ digest.toList) : isHexDigit c = true := by
  simp only [isManifestDigest, Bool.and_eq_true, List.all_eq_true] at h
  simp only [isHexDigit, Bool.or_eq_true]
  exact Or.inl (by simpa using h.2 c hc)

/-! ## Checks -/

def checkRef (r : String × String) : Except ManifestError Unit :=
  if !isSafeRefname r.1 then .error (.unsafeRefName r.1)
  else if !isHexOid r.2 then .error (.malformedOid r.1 r.2)
  else .ok ()

def checkPack (key : String) : Except ManifestError Unit :=
  if !isPackKey key then .error (.malformedPackKey key) else .ok ()

def checkParent (parent : Option String) : Except ManifestError Unit :=
  match parent with
  | none => .ok ()
  | some p => if !isManifestDigest p then .error (.malformedParent p) else .ok ()

def Manifest.validate (m : Manifest) : Except ManifestError Unit :=
  if maxManifestPacks < m.packs.length then
    .error (.tooManyPacks m.packs.length maxManifestPacks)
  else if maxManifestRefs < m.refs.size then
    .error (.tooManyRefs m.refs.size maxManifestRefs)
  else if m.head.isEmpty then .error .emptyHead
  else if !isSafeRefname m.head then .error (.unsafeRefName m.head)
  else do
    m.refs.entries.forM checkRef
    m.packs.forM checkPack
    checkParent m.parent

/-! ## What passes the checks -/

theorem forM_ok_iff {α ε : Type} (f : α → Except ε Unit) (xs : List α) :
    xs.forM f = .ok () ↔ ∀ x ∈ xs, f x = .ok () := by
  induction xs with
  | nil => simp [pure, Except.pure]
  | cons x xs ih =>
    rw [List.forall_mem_cons, ← ih]
    change (f x >>= fun _ => xs.forM f) = .ok () ↔ _
    rcases f x with e | ⟨⟩
    · simp [bind, Except.bind]
    · simp [bind, Except.bind]

structure Manifest.Valid (m : Manifest) : Prop where
  packCount : m.packs.length ≤ maxManifestPacks
  refCount : m.refs.size ≤ maxManifestRefs
  head : isSafeRefname m.head = true
  refs : ∀ r ∈ m.refs.entries, isSafeRefname r.1 = true ∧ isHexOid r.2 = true
  packs : ∀ key ∈ m.packs, isPackKey key = true
  parent : ∀ p, m.parent = some p → isManifestDigest p = true

theorem checkRef_ok_iff (r : String × String) :
    checkRef r = .ok () ↔ isSafeRefname r.1 = true ∧ isHexOid r.2 = true := by
  unfold checkRef
  split_ifs with hname hoid
  · simp_all
  · simp_all
  · simp_all

theorem checkPack_ok_iff (key : String) : checkPack key = .ok () ↔ isPackKey key = true := by
  unfold checkPack
  split_ifs <;> simp_all

theorem checkParent_ok_iff (parent : Option String) :
    checkParent parent = .ok () ↔ ∀ p, parent = some p → isManifestDigest p = true := by
  unfold checkParent
  cases parent with
  | none => simp
  | some p => by_cases h : isManifestDigest p = true <;> simp [h]

variable {s : String}

theorem not_isEmpty_of_isSafeRefname (h : isSafeRefname s = true) : s.isEmpty = false := by
  rw [← Bool.not_eq_true, String.isEmpty_iff]
  rintro rfl
  revert h
  decide

theorem validate_ok_iff (m : Manifest) : m.validate = .ok () ↔ m.Valid := by
  have hchecks : (do
        m.refs.entries.forM checkRef
        m.packs.forM checkPack
        checkParent m.parent : Except ManifestError Unit) = .ok () ↔
      (∀ r ∈ m.refs.entries, isSafeRefname r.1 = true ∧ isHexOid r.2 = true) ∧
        (∀ key ∈ m.packs, isPackKey key = true) ∧
          ∀ p, m.parent = some p → isManifestDigest p = true := by
    simp only [← checkRef_ok_iff, ← checkPack_ok_iff, ← checkParent_ok_iff, ← forM_ok_iff]
    rcases m.refs.entries.forM checkRef with e | ⟨⟩
    · simp [bind, Except.bind]
    · rcases m.packs.forM checkPack with e | ⟨⟩
      · simp [bind, Except.bind]
      · simp [bind, Except.bind]
  unfold Manifest.validate
  constructor
  · intro h
    split_ifs at h with hpacks hrefs hempty hhead
    obtain ⟨hr, hp, hparent⟩ := hchecks.mp h
    exact ⟨not_lt.mp hpacks, not_lt.mp hrefs, by simpa using hhead, hr, hp, hparent⟩
  · intro h
    rw [if_neg (not_lt.mpr h.packCount), if_neg (not_lt.mpr h.refCount),
      if_neg (by simp [not_isEmpty_of_isSafeRefname h.head]), if_neg (by simp [h.head])]
    exact hchecks.mpr ⟨h.refs, h.packs, h.parent⟩

/-! ## JSON -/

def Manifest.toJson (m : Manifest) : Json.Value :=
  .obj [
    ("version", .num (Nat.toDigits 10 m.version)),
    ("head", .str m.head),
    ("refs", .obj (m.refs.entries.map fun r => (r.1, .str r.2))),
    ("packs", .arr (m.packs.map .str)),
    ("parent", match m.parent with
      | none => .null
      | some p => .str p)]

/-- `packs` is sorted and loses its repeats. -/
def Manifest.canonical (m : Manifest) : Manifest := { m with packs := sortDedup m.packs }

def Manifest.canonicalBytes (m : Manifest) : ByteArray :=
  (String.ofList (Json.render m.canonical.toJson)).toUTF8

def jsonString : Json.Value → Option String
  | .str s => some s
  | _ => none

def digitsValue (text : List Char) : Nat :=
  text.foldl (fun n c => n * 10 + (c.toNat - '0'.toNat)) 0

/-- A `u32`. A number with a sign, a fraction or an exponent is none. -/
def jsonU32 : Json.Value → Option Nat
  | .num text =>
    if text.all Json.isDigit ∧ digitsValue text < 2 ^ 32 then some (digitsValue text) else none
  | _ => none

def jsonRefs : Json.Value → Option (OrdMap String String)
  | .obj members =>
    (members.mapM fun m => (jsonString m.2).map fun oid => (m.1, oid)).map OrdMap.ofList
  | _ => none

def jsonPacks : Json.Value → Option (List String)
  | .arr items => items.mapM jsonString
  | _ => none

def jsonParent : Json.Value → Option (Option String)
  | .null => some none
  | .str s => some (some s)
  | _ => none

def fieldsToManifest (version head refs packs parent : Json.Value) : Option Manifest := do
  let version ← jsonU32 version
  let head ← jsonString head
  let refs ← jsonRefs refs
  let packs ← jsonPacks packs
  let parent ← jsonParent parent
  some ⟨version, head, refs, packs, parent⟩

/-- The value of a field. `none` when it is there twice. -/
def field (members : List (String × Json.Value)) (name : String) : Option (Option Json.Value) :=
  match members.filter fun m => m.1 == name with
  | [] => some none
  | [m] => some (some m.2)
  | _ => none

/-- The derived `Deserialize`: an object, whose other members are ignored, or the five fields in
an array. Only `parent` may be missing. -/
def jsonManifest : Json.Value → Option Manifest
  | .obj members => do
    let version ← ← field members "version"
    let head ← ← field members "head"
    let refs ← ← field members "refs"
    let packs ← ← field members "packs"
    let parent ← field members "parent"
    fieldsToManifest version head refs packs (parent.getD .null)
  | .arr [version, head, refs, packs, parent] => fieldsToManifest version head refs packs parent
  | _ => none

def Manifest.fromBytes (bytes : ByteArray) : Except ManifestError Manifest :=
  match (String.fromUTF8? bytes).bind fun s => (Json.parse s.toList).bind jsonManifest with
  | none => .error .serde
  | some m =>
    if m.version ≠ manifestVersion then .error (.unsupportedVersion m.version manifestVersion)
    else .ok m

/-! ## What is written is read back -/

theorem toJson_valid (m : Manifest) : Json.Valid m.toJson := by
  refine .obj _ ?_
  intro member hmember
  simp only [List.mem_cons, List.not_mem_nil, or_false] at hmember
  rcases hmember with rfl | rfl | rfl | rfl | rfl
  · exact Json.valid_toDigits m.version
  · exact .str _
  · refine .obj _ ?_
    intro r hr
    obtain ⟨entry, -, rfl⟩ := List.mem_map.mp hr
    exact .str _
  · refine .arr _ ?_
    intro v hv
    obtain ⟨pack, -, rfl⟩ := List.mem_map.mp hv
    exact .str _
  · cases m.parent with
    | none => exact .null
    | some p => exact .str _

theorem jsonPacks_map (packs : List String) : jsonPacks (.arr (packs.map .str)) = some packs := by
  simp only [jsonPacks, List.mapM_map]
  induction packs with
  | nil => rfl
  | cons p packs ih => simp_all [jsonString]

theorem jsonRefs_map (refs : OrdMap String String) :
    jsonRefs (.obj (refs.entries.map fun r => (r.1, .str r.2))) = some refs := by
  have hentries : ∀ entries : List (String × String),
      (entries.mapM fun r => (jsonString (.str r.2)).map fun oid => (r.1, oid)) = some entries := by
    intro entries
    induction entries with
    | nil => rfl
    | cons r entries ih => simp_all [jsonString]
  simp only [jsonRefs, List.mapM_map]
  calc _ = (some refs.entries).map OrdMap.ofList :=
        congrArg (Option.map OrdMap.ofList) (hentries refs.entries)
    _ = some refs := congrArg some (OrdMap.ofList_entries refs)

theorem jsonU32_toDigits (n : Nat) :
    jsonU32 (.num (Nat.toDigits 10 n)) = if n < 2 ^ 32 then some n else none := by
  have hdigits : (Nat.toDigits 10 n).all Json.isDigit = true :=
    List.all_eq_true.mpr Json.isDigit_of_mem_toDigits
  have hvalue : digitsValue (Nat.toDigits 10 n) = n := by
    unfold digitsValue
    simp only [Nat.mul_comm _ 10, ← Nat.ofDigitChars_eq_foldl, Nat.ofDigitChars_ten_toDigits]
  unfold jsonU32
  simp [hdigits, hvalue]

theorem jsonManifest_toJson (m : Manifest) :
    jsonManifest m.toJson = if m.version < 2 ^ 32 then some m else none := by
  have hparent : jsonParent (match m.parent with
      | none => .null
      | some p => .str p) = some m.parent := by
    cases m.parent <;> rfl
  have hversion := jsonU32_toDigits m.version
  simp only [Manifest.toJson, jsonManifest, field, fieldsToManifest]
  split_ifs at hversion ⊢ with hu32
  · simp [hversion, hparent, jsonString, jsonRefs_map, jsonPacks_map]
  · simp [hversion]

theorem fromBytes_canonicalBytes_eq (m : Manifest) :
    Manifest.fromBytes m.canonicalBytes =
      if m.version < 2 ^ 32 then
        if m.version = manifestVersion then .ok m.canonical
        else .error (.unsupportedVersion m.version manifestVersion)
      else .error .serde := by
  have hcanonical : m.canonical.version = m.version := rfl
  simp only [Manifest.fromBytes, Manifest.canonicalBytes, Text.fromUTF8?_toUTF8, Option.bind_some,
    String.toList_ofList, Json.parse_render (toJson_valid _), jsonManifest_toJson, hcanonical]
  split_ifs <;> simp_all

theorem fromBytes_canonicalBytes (m : Manifest) (h : m.version = manifestVersion) :
    Manifest.fromBytes m.canonicalBytes = .ok m.canonical := by
  rw [fromBytes_canonicalBytes_eq, h]
  rfl

theorem canonical_eq_of_bytes_eq {m m' : Manifest} (h : m.version = manifestVersion)
    (h' : m'.version = manifestVersion) (hbytes : m.canonicalBytes = m'.canonicalBytes) :
    m.canonical = m'.canonical := by
  have hread := fromBytes_canonicalBytes m h
  rw [hbytes, fromBytes_canonicalBytes m' h'] at hread
  exact (Except.ok.inj hread).symm

/-! ## How long the text is -/

theorem escapeChar_of_bounds {c : Char} (h : 32 ≤ c.toNat ∧ c.toNat ≠ 34 ∧ c.toNat ≠ 92) :
    Json.escapeChar c = [c] := by
  have hquote : c ≠ '"' := by
    rintro rfl
    exact h.2.1 rfl
  have hslash : c ≠ '\\' := by
    rintro rfl
    exact h.2.2 rfl
  unfold Json.escapeChar
  rw [if_neg hquote, if_neg hslash, if_neg (by omega), if_neg (by omega), if_neg (by omega),
    if_neg (by omega), if_neg (by omega), if_neg (by omega)]

theorem plain_of_isSafeRefname (h : isSafeRefname s = true) : Json.Plain s := by
  intro c hc
  simp only [isSafeRefname, Bool.and_eq_true, List.all_eq_true] at h
  have hchar := h.2 c hc
  refine escapeChar_of_bounds ?_
  simp only [isSafeRefnameChar, Char.isAlphanum, Char.isAlpha, Char.isUpper, Char.isLower,
    Char.isDigit, Bool.or_eq_true, Bool.and_eq_true, decide_eq_true_eq, beq_iff_eq,
    UInt32.le_iff_toNat_le, ge_iff_le] at hchar
  have hval : c.val.toNat = c.toNat := rfl
  rcases hchar with ((((((hb | hb) | hb)) | rfl) | rfl) | rfl) | rfl
  all_goals first | decide | (simp only [hval] at hb; simp at hb; omega)

theorem plain_of_hexDigits (h : ∀ c ∈ s.toList, isHexDigit c = true) : Json.Plain s := by
  intro c hc
  have hbounds := hexDigit_bounds (h c hc)
  exact escapeChar_of_bounds (by omega)

theorem plain_of_isHexOid (h : isHexOid s = true) : Json.Plain s := by
  simp only [isHexOid, Bool.and_eq_true, List.all_eq_true] at h
  exact plain_of_hexDigits h.2

theorem plain_of_digest (h : isManifestDigest s = true) : Json.Plain s :=
  plain_of_hexDigits fun c hc => isHexDigit_of_digest h c hc

end Vingilot.Git
