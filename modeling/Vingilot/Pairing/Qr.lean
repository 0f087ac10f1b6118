import Vingilot.Events.Rows
import Vingilot.Lib.Lossy
import Vingilot.Lib.Percent
import Vingilot.Lib.Search
import Vingilot.Pairing.Session
import Vingilot.Tunnel.Fencing

/-!
# QR codes (`buzz-core/src/pairing/qr.rs`)

`nostrpair://<source_pubkey_hex>?secret=<session_secret_hex>&relay=<url-encoded-relay>&v=1`, with a
`relay` for every relay.
-/

namespace Vingilot.Pairing

open Vingilot.Tunnel (hexEncode hexDecode hexDecode_hexEncode)

structure ParsedUrl where
  scheme : String
  hasHost : Bool

/-- What other crates do: `PublicKey::from_hex` and `Url::parse` with the text of an error, the text
of an error of `hex::decode`, and the `Debug` form of a string. -/
structure QrCrates where
  fromHex : String → Except String PublicKey
  parseUrl : String → Except String ParsedUrl
  hexError : String → String
  debug : String → String

/-- `str::parse::<u32>`. -/
def parseU32 (text : List Char) : Option Nat := (Text.parseU64 text).filter fun n => n < 2 ^ 32

/-! ## Encoding -/

def qrStart : List Char := "nostrpair://".toList

def urlEncode (s : String) : List Char := Percent.encode s.toList

def urlDecode (text : List Char) : String := .ofList (Lossy.decode (Percent.decode text))

def encodeQr (payload : QrPayload) : String :=
  .ofList <| qrStart ++ payload.sourcePubkey.toHex.toList ++ "?secret=".toList ++
    hexEncode payload.sessionSecret ++
    (payload.relays.flatMap fun relay => "&relay=".toList ++ urlEncode relay) ++ "&v=1".toList

/-! ## Decoding -/

def isHex64 (text : List Char) : Bool :=
  (Codes.utf8 text).length == 64 && text.all Events.isLowerHexChar

def splitUri (uri : String) : Except String (List Char × List Char) :=
  if qrStart.isPrefixOf uri.toList then
    match Search.splitOnce '?' (uri.toList.drop qrStart.length) with
    | some parts => .ok parts
    | none => .error "missing query string (expected ?secret=…&relay=…)"
  else .error "URI must start with nostrpair://"

def decodePubkey (crates : QrCrates) (pubkeyHex : List Char) : Except String PublicKey :=
  if isHex64 pubkeyHex then
    (crates.fromHex (.ofList pubkeyHex)).mapError fun e => s!"invalid pubkey: {e}"
  else .error s!"pubkey must be 64 lowercase hex chars, got {crates.debug (.ofList pubkeyHex)}"

structure QrQuery where
  secretHex : Option (List Char)
  relays : List String
  version : Option Nat

def QrQuery.read (q : QrQuery) (pair : List Char) : QrQuery :=
  match Search.splitOnce '=' pair with
  | none => q
  | some (key, value) =>
    if key = "secret".toList then { q with secretHex := some value }
    else if key = "relay".toList then { q with relays := q.relays ++ [urlDecode value] }
    else if key = "v".toList then { q with version := parseU32 value }
    else q

def parseQuery (query : List Char) : QrQuery :=
  (query.splitOn '&').foldl QrQuery.read ⟨none, [], none⟩

def checkVersion (version : Nat) : Except String Unit :=
  if version ≠ 1 then .error s!"unsupported protocol version {version}, expected 1" else .ok ()

def decodeSecret (crates : QrCrates) : Option (List Char) → Except String Bytes
  | none => .error "missing 'secret' query parameter"
  | some secretHex =>
    if isHex64 secretHex then
      match hexDecode secretHex with
      | none => .error s!"invalid secret hex: {crates.hexError (.ofList secretHex)}"
      | some bytes =>
        if bytes.length ≠ 32 then .error "secret must be exactly 32 bytes"
        else if bytes = List.replicate 32 0 then .error "session_secret must not be all zeros"
        else .ok bytes
    else .error s!"secret must be 64 lowercase hex chars, got {crates.debug (.ofList secretHex)}"

def checkRelay (crates : QrCrates) (relay : String) : Except String Unit :=
  match crates.parseUrl relay with
  | .error e => .error s!"invalid relay URL {crates.debug relay}: {e}"
  | .ok parsed =>
    if parsed.scheme = "wss" ∨ parsed.scheme = "ws" then
      if parsed.hasHost then .ok () else .error s!"relay URL has no host: {crates.debug relay}"
    else .error s!"relay URL must use wss:// or ws:// scheme, got {crates.debug parsed.scheme}"

def checkRelays (crates : QrCrates) (relays : List String) : Except String Unit :=
  if relays.isEmpty then .error "at least one 'relay' query parameter is required"
  else relays.forM (checkRelay crates)

/-- Every error is an `InvalidQr` with this text. -/
def decodeQr (crates : QrCrates) (uri : String) : Except String QrPayload := do
  if 2048 < uri.utf8ByteSize then
    throw s!"URI exceeds 2048-character limit ({uri.utf8ByteSize} chars)"
  let (pubkeyHex, query) ← splitUri uri
  let sourcePubkey ← decodePubkey crates pubkeyHex
  let q := parseQuery query
  let version := q.version.getD 1
  checkVersion version
  let sessionSecret ← decodeSecret crates q.secretHex
  checkRelays crates q.relays
  return { version, sourcePubkey, sessionSecret, relays := q.relays }

/-! ## What is accepted -/

def paramValue (key : String) (pair : List Char) : Option (List Char) :=
  match Search.splitOnce '=' pair with
  | none => none
  | some (k, value) => if k = key.toList then some value else none

def paramValues (key : String) (query : List Char) : List (List Char) :=
  (query.splitOn '&').filterMap (paramValue key)

theorem paramValue_append {key : String} (h : '=' ∉ key.toList) (other : String)
    (value : List Char) : paramValue other (key.toList ++ '=' :: value) =
      if key.toList = other.toList then some value else none := by
  rw [paramValue, Search.splitOnce_append h]

theorem read_eq (q : QrQuery) (pair : List Char) :
    q.read pair = ⟨(paramValue "secret" pair).or q.secretHex,
      q.relays ++ (paramValue "relay" pair).toList.map urlDecode,
      ((paramValue "v" pair).map parseU32).getD q.version⟩ := by
  have hsr : "secret".toList ≠ "relay".toList := by decide
  have hsv : "secret".toList ≠ "v".toList := by decide
  have hrv : "relay".toList ≠ "v".toList := by decide
  unfold QrQuery.read paramValue
  rcases Search.splitOnce '=' pair with _ | ⟨key, value⟩
  · rw [Option.toList_none, List.map_nil, List.append_nil]
    rfl
  · simp only
    by_cases hsecret : key = "secret".toList
    · subst hsecret
      rw [if_pos rfl, if_pos rfl, if_neg hsr, if_neg hsv, Option.toList_none, List.map_nil,
        List.append_nil]
      rfl
    · rw [if_neg hsecret, if_neg hsecret]
      by_cases hrelay : key = "relay".toList
      · subst hrelay
        rw [if_pos rfl, if_pos rfl, if_neg hrv]
        rfl
      · rw [if_neg hrelay, if_neg hrelay, Option.toList_none, List.map_nil, List.append_nil]
        by_cases hv : key = "v".toList
        · rw [if_pos hv, if_pos hv]
          rfl
        · rw [if_neg hv, if_neg hv]
          rfl

theorem parseQuery_eq (query : List Char) :
    parseQuery query = ⟨(paramValues "secret" query).getLast?,
      (paramValues "relay" query).map urlDecode,
      (paramValues "v" query).getLast?.bind parseU32⟩ := by
  unfold parseQuery paramValues
  induction query.splitOn '&' using List.reverseRecOn with
  | nil => rfl
  | append_singleton pairs pair ih =>
    rw [List.foldl_append, ih, List.foldl_cons, List.foldl_nil, read_eq]
    have hlast (key : String) : ([pair].filterMap (paramValue key)).getLast? =
        paramValue key pair := by
      rw [List.filterMap_cons, List.filterMap_nil]
      cases paramValue key pair with
      | none => rfl
      | some value => rfl
    have hrelay : [pair].filterMap (paramValue "relay") = (paramValue "relay" pair).toList := by
      rw [List.filterMap_cons, List.filterMap_nil]
      cases paramValue "relay" pair with
      | none => rfl
      | some value => rfl
    simp only [List.filterMap_append, List.map_append, List.getLast?_append, hlast, hrelay]
    cases paramValue "v" pair with
    | none => rfl
    | some value => rfl

/-! ## What is encoded is read back -/

def param (key : String) (value : List Char) : List Char := key.toList ++ '=' :: value

def encodedParams (payload : QrPayload) : List (List Char) :=
  (payload.relays.map fun relay => param "relay" (urlEncode relay)) ++ [param "v" ['1']]

def encodedQuery (payload : QrPayload) : List Char :=
  param "secret" (hexEncode payload.sessionSecret) ++
    (encodedParams payload).flatMap fun pair => '&' :: pair

theorem toList_encodeQr (payload : QrPayload) : (encodeQr payload).toList =
    qrStart ++ (hexEncode payload.sourcePubkey.bytes ++ '?' :: encodedQuery payload) := by
  have hrelay (relay : String) :
      "&relay=".toList ++ urlEncode relay = '&' :: param "relay" (urlEncode relay) := rfl
  have hsecret (value : List Char) : "?secret=".toList ++ value = '?' :: param "secret" value := rfl
  have hversion : "&v=1".toList = '&' :: param "v" ['1'] := rfl
  unfold encodeQr encodedQuery encodedParams
  rw [String.toList_ofList, PublicKey.toHex, String.toList_ofList, List.flatMap_append,
    List.flatMap_map, hversion]
  simp only [hrelay, List.append_assoc, List.flatMap_cons, List.flatMap_nil, List.append_nil]
  rw [← List.append_assoc "?secret=".toList, hsecret, List.cons_append]

theorem isLowerHexChar_hexDigit :
    ∀ n < 16, Events.isLowerHexChar (Json.hexDigit n) = true := by decide

theorem all_hexEncode (bytes : Bytes) :
    (hexEncode bytes).all Events.isLowerHexChar = true := by
  rw [List.all_eq_true]
  intro c hc
  obtain ⟨b, -, hc⟩ := List.mem_flatMap.mp hc
  have hb : b.toNat < 256 := b.toNat_lt
  simp only [List.mem_cons, List.not_mem_nil, or_false] at hc
  rcases hc with rfl | rfl
  · exact isLowerHexChar_hexDigit _ (by omega)
  · exact isLowerHexChar_hexDigit _ (by omega)

theorem notMem_hexEncode {c : Char} (h : Events.isLowerHexChar c = false) (bytes : Bytes) :
    c ∉ hexEncode bytes := by
  intro hc
  rw [List.all_eq_true.mp (all_hexEncode bytes) c hc] at h
  cases h

theorem hexEncode_cons (b : UInt8) (bytes : Bytes) : hexEncode (b :: bytes) =
    Json.hexDigit (b.toNat / 16) :: Json.hexDigit (b.toNat % 16) :: hexEncode bytes := rfl

theorem length_hexEncode (bytes : Bytes) : (hexEncode bytes).length = 2 * bytes.length := by
  induction bytes with
  | nil => rfl
  | cons b bytes ih =>
    rw [hexEncode_cons]
    simp only [List.length_cons, ih]
    omega

theorem isHex64_iff (text : List Char) :
    isHex64 text = true ↔ text.length = 64 ∧ text.all Events.isLowerHexChar = true := by
  unfold isHex64
  rw [Bool.and_eq_true, beq_iff_eq]
  refine and_congr_left fun hall => ?_
  rw [show (Codes.utf8 text).length = text.length from Events.length_utf8Bytes hall]

theorem isHex64_hexEncode {bytes : Bytes} (h : bytes.length = 32) :
    isHex64 (hexEncode bytes) = true :=
  (isHex64_iff _).mpr ⟨by rw [length_hexEncode, h], all_hexEncode bytes⟩

theorem urlDecode_urlEncode (s : String) : urlDecode (urlEncode s) = s := by
  rw [urlDecode, urlEncode, Percent.decode_encode, Lossy.decode_utf8, String.ofList_toList]

theorem notMem_urlEncode {c : Char} (hpercent : c ≠ '%') (hc : c.isAlphanum = false) (s : String) :
    c ∉ urlEncode s := by
  intro hmem
  rcases Percent.isAlphanum_of_mem_encode hmem with heq | halnum
  · exact hpercent heq
  · rw [halnum] at hc
    cases hc

theorem splitOn_encodedQuery (payload : QrPayload) : (encodedQuery payload).splitOn '&' =
    param "secret" (hexEncode payload.sessionSecret) :: encodedParams payload := by
  have hparam (key : String) (value : List Char) (hkey : '&' ∉ key.toList) (hvalue : '&' ∉ value) :
      '&' ∉ param key value := by
    unfold param
    rw [List.mem_append, List.mem_cons]
    rintro (h | h | h)
    · exact hkey h
    · exact absurd h (by decide)
    · exact hvalue h
  apply Percent.splitOn_append_flatMap
  · exact hparam _ _ (by decide) (notMem_hexEncode (by decide) _)
  · intro pair hpair
    rcases List.mem_append.mp hpair with hpair | hpair
    · obtain ⟨relay, -, rfl⟩ := List.mem_map.mp hpair
      exact hparam _ _ (by decide) (notMem_urlEncode (by decide) (by decide) relay)
    · rw [List.mem_singleton.mp hpair]
      exact hparam _ _ (by decide) (by decide)

theorem paramValues_encodedQuery (payload : QrPayload) (key : String) :
    paramValues key (encodedQuery payload) =
      (if "secret".toList = key.toList then [hexEncode payload.sessionSecret] else []) ++
        (if "relay".toList = key.toList then payload.relays.map urlEncode else []) ++
        (if "v".toList = key.toList then [['1']] else []) := by
  have hsingle (name : String) (hname : '=' ∉ name.toList) (value : List Char) :
      [param name value].filterMap (paramValue key) =
        if name.toList = key.toList then [value] else [] := by
    rw [List.filterMap_cons, List.filterMap_nil, param, paramValue_append hname]
    split_ifs <;> rfl
  have hrelays (relays : List String) :
      (relays.map fun relay => param "relay" (urlEncode relay)).filterMap (paramValue key) =
        if "relay".toList = key.toList then relays.map urlEncode else [] := by
    induction relays with
    | nil => rw [List.map_nil, List.map_nil, ite_self]; rfl
    | cons relay relays ih =>
      rw [List.map_cons, ← List.singleton_append, List.filterMap_append, ih,
        hsingle "relay" (by decide)]
      split_ifs <;> rfl
  unfold paramValues
  rw [splitOn_encodedQuery, encodedParams, ← List.singleton_append, List.filterMap_append,
    List.filterMap_append, hsingle "secret" (by decide), hrelays, hsingle "v" (by decide),
    List.append_assoc]

theorem parseQuery_encodedQuery (payload : QrPayload) : parseQuery (encodedQuery payload) =
    ⟨some (hexEncode payload.sessionSecret), payload.relays, some 1⟩ := by
  have hsr : "secret".toList ≠ "relay".toList := by decide
  have hsv : "secret".toList ≠ "v".toList := by decide
  have hrv : "relay".toList ≠ "v".toList := by decide
  have hdecoded : (payload.relays.map urlEncode).map urlDecode = payload.relays := by
    rw [List.map_map]
    exact List.map_id'' urlDecode_urlEncode payload.relays
  rw [parseQuery_eq]
  simp only [paramValues_encodedQuery, hsr, hsv, hrv, hsr.symm, hsv.symm, hrv.symm, if_true,
    if_false, List.append_nil, List.nil_append, hdecoded]
  rfl

/-! ## The checks -/

theorem checkRelays_iff (crates : QrCrates) (relays : List String) :
    checkRelays crates relays = .ok () ↔ relays ≠ [] ∧ ∀ relay ∈ relays, ∃ url,
      crates.parseUrl relay = .ok url ∧ (url.scheme = "wss" ∨ url.scheme = "ws") ∧
        url.hasHost = true := by
  have hrelay (relay : String) : checkRelay crates relay = .ok () ↔ ∃ url,
      crates.parseUrl relay = .ok url ∧ (url.scheme = "wss" ∨ url.scheme = "ws") ∧
        url.hasHost = true := by
    unfold checkRelay
    cases crates.parseUrl relay with
    | error e => simp
    | ok url =>
      simp only [Except.ok.injEq, exists_eq_left']
      split_ifs with hscheme hhost
      · exact iff_of_true rfl ⟨hscheme, hhost⟩
      · exact iff_of_false (by simp) fun h => hhost h.2
      · exact iff_of_false (by simp) fun h => hscheme h.1
  have hall : relays.forM (checkRelay crates) = .ok () ↔
      ∀ relay ∈ relays, checkRelay crates relay = .ok () := by
    induction relays with
    | nil => simp [pure, Except.pure]
    | cons relay relays ih =>
      have hcons : (relay :: relays).forM (checkRelay crates) =
          (checkRelay crates relay).bind fun _ => relays.forM (checkRelay crates) := rfl
      rw [hcons, List.forall_mem_cons, ← ih]
      cases checkRelay crates relay with
      | error e => simp [Except.bind]
      | ok u => simp [Except.bind]
  unfold checkRelays
  cases relays with
  | nil => simp
  | cons relay relays =>
    rw [List.isEmpty_cons, if_neg Bool.false_ne_true, hall]
    simp only [hrelay, ne_eq, reduceCtorEq, not_false_eq_true, true_and]

theorem exists_hexDigit {c : Char} (h : Events.isLowerHexChar c = true) :
    ∃ n < 16, c = Json.hexDigit n := by
  have hcode : ∀ m < 103, (48 ≤ m ∧ m ≤ 57) ∨ (97 ≤ m ∧ m ≤ 102) →
      ∃ n < 16, m = (Json.hexDigit n).toNat := by decide
  rw [Events.isLowerHexChar_iff] at h
  obtain ⟨n, hn, heq⟩ := hcode c.toNat (by omega) h
  exact ⟨n, hn, Char.toNat_inj.mp heq⟩

theorem exists_hexEncode {n : Nat} {text : List Char} (hlength : text.length = 2 * n)
    (hall : text.all Events.isLowerHexChar = true) :
    ∃ bytes : Bytes, bytes.length = n ∧ text = hexEncode bytes := by
  induction n generalizing text with
  | zero => exact ⟨[], rfl, List.eq_nil_of_length_eq_zero (by omega)⟩
  | succ n ih =>
    match text, hlength with
    | a :: b :: text, hlength =>
      simp only [List.all_cons, Bool.and_eq_true] at hall
      obtain ⟨ha, hb, hall⟩ := hall
      obtain ⟨bytes, hbytes, rfl⟩ := ih (by simp only [List.length_cons] at hlength; omega) hall
      obtain ⟨high, hhigh, rfl⟩ := exists_hexDigit ha
      obtain ⟨low, hlow, rfl⟩ := exists_hexDigit hb
      have htoNat : (UInt8.ofNat (high * 16 + low)).toNat = high * 16 + low := by
        rw [UInt8.toNat_ofNat', Nat.mod_eq_of_lt (by omega)]
      refine ⟨UInt8.ofNat (high * 16 + low) :: bytes, by rw [List.length_cons, hbytes], ?_⟩
      rw [hexEncode_cons, htoNat, show (high * 16 + low) / 16 = high by omega,
        show (high * 16 + low) % 16 = low by omega]

theorem hexEncode_inj {a b : Bytes} : hexEncode a = hexEncode b ↔ a = b := by
  constructor
  · intro h
    have hdecoded := congrArg hexDecode h
    rw [hexDecode_hexEncode, hexDecode_hexEncode] at hdecoded
    exact Option.some.inj hdecoded
  · exact congrArg hexEncode

theorem decodeSecret_hexEncode (crates : QrCrates) {bytes : Bytes} (hlength : bytes.length = 32)
    (hzero : bytes ≠ List.replicate 32 0) :
    decodeSecret crates (some (hexEncode bytes)) = .ok bytes := by
  simp only [decodeSecret]
  rw [if_pos (isHex64_hexEncode hlength), hexDecode_hexEncode]
  simp only
  rw [if_neg (not_not_intro hlength), if_neg hzero]

theorem splitUri_of_toList {uri : String} {p : PublicKey} {query : List Char}
    (h : uri.toList = qrStart ++ (hexEncode p.bytes ++ '?' :: query)) :
    splitUri uri = .ok (hexEncode p.bytes, query) := by
  unfold splitUri
  rw [h, if_pos (List.isPrefixOf_iff_prefix.mpr (List.prefix_append _ _)), List.drop_left,
    Search.splitOnce_append (notMem_hexEncode (by decide) _)]

/-- Whatever characters the relays contain. -/
theorem decodeQr_encodeQr (crates : QrCrates) (payload : QrPayload)
    (hfromHex : ∀ p, crates.fromHex p.toHex = .ok p) (hversion : payload.version = 1)
    (hlength : payload.sessionSecret.length = 32)
    (hzero : payload.sessionSecret ≠ List.replicate 32 0) (hrelays : payload.relays ≠ [])
    (hurls : ∀ relay ∈ payload.relays, ∃ url, crates.parseUrl relay = .ok url ∧
      (url.scheme = "wss" ∨ url.scheme = "ws") ∧ url.hasHost = true)
    (hsize : (encodeQr payload).utf8ByteSize ≤ 2048) :
    decodeQr crates (encodeQr payload) = .ok payload := by
  have hpubkey : decodePubkey crates (hexEncode payload.sourcePubkey.bytes) =
      .ok payload.sourcePubkey := by
    unfold decodePubkey
    rw [if_pos (isHex64_hexEncode payload.sourcePubkey.length_eq)]
    exact congrArg _ (hfromHex payload.sourcePubkey)
  have hchecked := (checkRelays_iff crates payload.relays).mpr ⟨hrelays, hurls⟩
  unfold decodeQr
  rw [if_neg (Nat.not_lt.mpr hsize), splitUri_of_toList (toList_encodeQr payload)]
  simp only [bind, Except.bind, pure, Except.pure, hpubkey, parseQuery_encodedQuery,
    Option.getD_some, checkVersion, decodeSecret_hexEncode crates hlength hzero, hchecked]
  cases payload with
  | mk version sourcePubkey sessionSecret relays =>
    simp only at hversion
    subst hversion
    rfl

/-! ## Versions -/

def queryValues (key : String) (uri : String) : List (List Char) :=
  match splitUri uri with
  | .ok (_, query) => paramValues key query
  | .error _ => []

def Readable (crates : QrCrates) (uri : String) : Prop :=
  uri.utf8ByteSize ≤ 2048 ∧ ∃ pubkeyHex query, splitUri uri = .ok (pubkeyHex, query) ∧
    (isHex64 pubkeyHex = true ∧ ∃ p, crates.fromHex (.ofList pubkeyHex) = .ok p) ∧
    (∃ secretHex, (paramValues "secret" query).getLast? = some secretHex ∧
      isHex64 secretHex = true ∧ secretHex ≠ List.replicate 64 '0') ∧
    paramValues "relay" query ≠ [] ∧ ∀ value ∈ paramValues "relay" query, ∃ url,
      crates.parseUrl (urlDecode value) = .ok url ∧ (url.scheme = "wss" ∨ url.scheme = "ws") ∧
        url.hasHost = true

theorem bind_ok_iff {α β : Type} {x : Except String α} {f : α → Except String β} {b : β} :
    x.bind f = .ok b ↔ ∃ a, x = .ok a ∧ f a = .ok b := by
  cases x with
  | error e => simp [Except.bind]
  | ok a => simp [Except.bind]

theorem decodePubkey_iff (crates : QrCrates) (pubkeyHex : List Char) :
    (∃ p, decodePubkey crates pubkeyHex = .ok p) ↔
      isHex64 pubkeyHex = true ∧ ∃ p, crates.fromHex (.ofList pubkeyHex) = .ok p := by
  unfold decodePubkey
  split_ifs with h
  · rw [and_iff_right h]
    cases crates.fromHex (.ofList pubkeyHex) with
    | error e => simp [Except.mapError]
    | ok p => simp [Except.mapError]
  · simp [h]

theorem decodeSecret_iff (crates : QrCrates) (secret : Option (List Char)) :
    (∃ bytes, decodeSecret crates secret = .ok bytes) ↔ ∃ secretHex, secret = some secretHex ∧
      isHex64 secretHex = true ∧ secretHex ≠ List.replicate 64 '0' := by
  have hzeros : hexEncode (List.replicate 32 0) = List.replicate 64 '0' := by decide
  cases secret with
  | none => simp [decodeSecret]
  | some secretHex =>
    by_cases hhex : isHex64 secretHex = true
    · obtain ⟨hlength, hall⟩ := (isHex64_iff secretHex).mp hhex
      obtain ⟨bytes, hbytes, rfl⟩ := exists_hexEncode (n := 32) hlength hall
      by_cases hzero : bytes = List.replicate 32 0
      · subst hzero
        have hrejected : decodeSecret crates (some (hexEncode (List.replicate 32 0))) =
            .error "session_secret must not be all zeros" := by
          simp only [decodeSecret]
          rw [if_pos hhex, hexDecode_hexEncode]
          rfl
        rw [hrejected]
        refine iff_of_false (fun h => by cases h.choose_spec) ?_
        rintro ⟨_, heq, -, hne⟩
        exact hne ((Option.some.inj heq).symm.trans hzeros)
      · rw [decodeSecret_hexEncode crates hbytes hzero, ← hzeros]
        refine iff_of_true ⟨bytes, rfl⟩ ⟨_, rfl, hhex, ?_⟩
        rwa [ne_eq, hexEncode_inj]
    · simp only [decodeSecret]
      rw [if_neg hhex]
      simp [hhex]

theorem checkVersion_iff (version : Nat) : checkVersion version = .ok () ↔ version = 1 := by
  unfold checkVersion
  split_ifs with h
  · simp [h]
  · simpa using h

theorem decodeQr_ok_iff (crates : QrCrates) (uri : String) :
    (∃ payload, decodeQr crates uri = .ok payload) ↔
      Readable crates uri ∧ ((queryValues "v" uri).getLast?.bind parseU32).getD 1 = 1 := by
  unfold decodeQr
  by_cases hsize : 2048 < uri.utf8ByteSize
  · rw [if_pos hsize]
    refine iff_of_false (fun h => by cases h.choose_spec) fun h => ?_
    exact absurd h.1.1 (Nat.not_le.mpr hsize)
  rw [if_neg hsize]
  unfold Readable queryValues
  rw [and_iff_right (Nat.not_lt.mp hsize)]
  cases hsplit : splitUri uri with
  | error e =>
    refine iff_of_false (fun h => by cases h.choose_spec) ?_
    rintro ⟨⟨_, _, heq, -⟩, -⟩
    cases heq
  | ok parts =>
    obtain ⟨pubkeyHex, query⟩ := parts
    have hchecks : (∃ payload, (decodePubkey crates pubkeyHex).bind (fun sourcePubkey =>
          (checkVersion ((parseQuery query).version.getD 1)).bind fun _ =>
            (decodeSecret crates (parseQuery query).secretHex).bind fun sessionSecret =>
              (checkRelays crates (parseQuery query).relays).bind fun _ =>
                .ok (QrPayload.mk ((parseQuery query).version.getD 1) sourcePubkey sessionSecret
                  (parseQuery query).relays)) = .ok payload) ↔
        (∃ p, decodePubkey crates pubkeyHex = .ok p) ∧
          checkVersion ((parseQuery query).version.getD 1) = .ok () ∧
          (∃ bytes, decodeSecret crates (parseQuery query).secretHex = .ok bytes) ∧
          checkRelays crates (parseQuery query).relays = .ok () := by
      simp only [bind_ok_iff]
      constructor
      · rintro ⟨_, p, hp, _, hv, bytes, hbytes, _, hrelays, -⟩
        exact ⟨⟨p, hp⟩, hv, ⟨bytes, hbytes⟩, hrelays⟩
      · rintro ⟨⟨p, hp⟩, hv, ⟨bytes, hbytes⟩, hrelays⟩
        exact ⟨_, p, hp, (), hv, bytes, hbytes, (), hrelays, rfl⟩
    refine Iff.trans hchecks ?_
    rw [parseQuery_eq, decodePubkey_iff, checkVersion_iff, decodeSecret_iff, checkRelays_iff]
    simp only [List.map_eq_nil_iff, ne_eq, List.forall_mem_map]
    constructor
    · rintro ⟨hp, hv, hsecret, hrelays⟩
      exact ⟨⟨pubkeyHex, query, rfl, hp, hsecret, hrelays⟩, hv⟩
    · rintro ⟨⟨_, _, heq, hp, hsecret, hrelays⟩, hv⟩
      cases heq
      exact ⟨hp, hv, hsecret, hrelays⟩

/-- A version that is not the number 1 is rejected unless the last one cannot be read as a `u32`, or
is 1, and nothing else is wrong. -/
theorem version_rejected_iff (crates : QrCrates) (uri : String) :
    ((∃ value ∈ queryValues "v" uri, parseU32 value ≠ some 1) →
        ∃ e, decodeQr crates uri = .error e) ↔
      (∀ value ∈ queryValues "v" uri, parseU32 value = some 1) ∨
        (∃ n, n ≠ 1 ∧ (queryValues "v" uri).getLast?.bind parseU32 = some n) ∨
        ¬ Readable crates uri := by
  have herror : (∃ e, decodeQr crates uri = .error e) ↔
      ¬ ∃ payload, decodeQr crates uri = .ok payload := by
    cases decodeQr crates uri with
    | error e => simp
    | ok payload => simp
  rw [herror, decodeQr_ok_iff, not_and_or]
  have hlast : ¬ ((queryValues "v" uri).getLast?.bind parseU32).getD 1 = 1 ↔
      ∃ n, n ≠ 1 ∧ (queryValues "v" uri).getLast?.bind parseU32 = some n := by
    cases (queryValues "v" uri).getLast?.bind parseU32 with
    | none => simp
    | some n => simp
  rw [hlast, or_comm, imp_iff_not_or]
  simp only [not_exists, not_and, not_not]

def pairCrates : QrCrates where
  fromHex text :=
    match hexDecode text.toList with
    | none => .error "malformed public key"
    | some bytes =>
      if h : bytes.length = 32 then .ok ⟨bytes, h⟩ else .error "malformed public key"
  parseUrl relay :=
    if relay = "ws://a/?x=%26&y" then .ok ⟨"ws", true⟩
    else .error "relative URL without a base"
  hexError _ := "Odd number of digits"
  debug := id

def pairPayload : QrPayload where
  version := 1
  sourcePubkey := ⟨List.replicate 32 171, List.length_replicate⟩
  sessionSecret := List.replicate 32 1
  relays := ["ws://a/?x=%26&y"]

theorem pairCrates_fromHex (p : PublicKey) : pairCrates.fromHex p.toHex = .ok p := by
  simp only [pairCrates, PublicKey.toHex]
  rw [String.toList_ofList, hexDecode_hexEncode]
  simp only
  rw [dif_pos p.length_eq]

theorem utf8ByteSize_ofList (text : List Char) :
    (String.ofList text).utf8ByteSize = (Codes.utf8 text).length :=
  List.size_toByteArray

theorem decodeQr_encodeQr_pair :
    decodeQr pairCrates (encodeQr pairPayload) = .ok pairPayload := by
  have hsize : (encodeQr pairPayload).utf8ByteSize ≤ 2048 := by
    rw [← String.ofList_toList (s := encodeQr pairPayload), toList_encodeQr, utf8ByteSize_ofList]
    decide +kernel
  refine decodeQr_encodeQr pairCrates pairPayload pairCrates_fromHex rfl rfl (by decide)
    (by decide) ?_ hsize
  intro relay hrelay
  rw [List.mem_singleton.mp hrelay]
  exact ⟨⟨"ws", true⟩, by simp [pairCrates], Or.inr rfl, rfl⟩

def overflowQuery : List Char := encodedQuery pairPayload ++ "&v=4294967296".toList

def overflowUri : String :=
  .ofList <| qrStart ++ (hexEncode pairPayload.sourcePubkey.bytes ++ '?' :: overflowQuery)

/-- A version that does not fit in a `u32` counts as absent. -/
theorem overflow_accepted : (∃ value ∈ queryValues "v" overflowUri, parseU32 value ≠ some 1) ∧
    ∃ payload, decodeQr pairCrates overflowUri = .ok payload := by
  have hsplit : splitUri overflowUri =
      .ok (hexEncode pairPayload.sourcePubkey.bytes, overflowQuery) :=
    splitUri_of_toList String.toList_ofList
  have hsize : overflowUri.utf8ByteSize ≤ 2048 := by
    rw [overflowUri, utf8ByteSize_ofList]
    decide +kernel
  have hversions : paramValues "v" overflowQuery = [['1'], "4294967296".toList] := by
    decide +kernel
  have hsecrets : paramValues "secret" overflowQuery = [hexEncode pairPayload.sessionSecret] := by
    decide +kernel
  have hrelays : paramValues "relay" overflowQuery = [urlEncode "ws://a/?x=%26&y"] := by
    decide +kernel
  have hvalues : queryValues "v" overflowUri = [['1'], "4294967296".toList] := by
    rw [queryValues, hsplit]
    exact hversions
  rw [decodeQr_ok_iff, hvalues]
  refine ⟨⟨_, List.mem_cons_of_mem _ List.mem_cons_self, by decide⟩, ⟨hsize, ?_⟩, by decide⟩
  refine ⟨_, _, hsplit, ⟨isHex64_hexEncode rfl, _, pairCrates_fromHex pairPayload.sourcePubkey⟩, ?_, ?_, ?_⟩
  · rw [hsecrets]
    exact ⟨_, rfl, isHex64_hexEncode rfl, by decide⟩
  · rw [hrelays]
    exact List.cons_ne_nil _ _
  · rw [hrelays]
    intro value hvalue
    rw [List.mem_singleton.mp hvalue, urlDecode_urlEncode]
    exact ⟨⟨"ws", true⟩, by simp [pairCrates], Or.inr rfl, rfl⟩

end Vingilot.Pairing
