import Vingilot.Lib.Codes
import Vingilot.Lib.Program
import Vingilot.Tunnel.Directory

/-!
# Pairing sessions (`buzz-core/src/pairing/session.rs`)

One side of a device pairing. A session does no I/O: each call takes the clock, and an event or the
random bytes for one.
-/

namespace Vingilot.Pairing

open Vingilot.Tunnel (hexEncode hexDecode)

abbrev Bytes := List UInt8

/-! ## Messages and events -/

structure PublicKey where
  bytes : Bytes
  length_eq : bytes.length = 32
deriving DecidableEq

def PublicKey.toHex (p : PublicKey) : String := String.ofList (hexEncode p.bytes)

inductive AbortReason where
  | sasMismatch
  | userDenied
  | timeout
  | protocolError
  | unknown
deriving DecidableEq

inductive PayloadType where
  | nsec
  | bunker
  | connect
  | custom
deriving DecidableEq

inductive PairingMessage where
  | offer (sessionId : String) (version : BitVec 32)
  | sasConfirm (transcriptHash : String)
  | payload (payloadType : PayloadType) (payload : String)
  | complete (success : Bool)
  | abort (reason : AbortReason)

def PairingMessage.name : PairingMessage → String
  | offer .. => "offer"
  | sasConfirm .. => "sas-confirm"
  | payload .. => "payload"
  | complete .. => "complete"
  | abort .. => "abort"

structure Unsigned where
  pubkey : PublicKey
  createdAt : Nat
  kind : Nat
  tags : List (List String)
  content : String
deriving DecidableEq

structure Event extends Unsigned where
  id : Bytes
  sig : Bytes
deriving DecidableEq

def kindPairing : Nat := 24134

/-- `hex::decode`, when it gives 32 bytes. -/
def decodeHash (text : String) : Option Bytes :=
  (hexDecode text.toList).filter fun bytes => bytes.length == 32

/-- Errors of other crates have no text here. -/
inductive PairingError where
  | invalidSessionId
  | sasMismatch
  | transcriptMismatch
  | unexpectedMessage (expected got : String)
  | sessionExpired
  | nip44
  | json
  | invalidPubkey (text : String)
  | signingError
deriving DecidableEq

def unexpected (expected : String) (got : PairingMessage) : PairingError :=
  .unexpectedMessage expected got.name

/-! ## Cryptography -/

/-- What other crates compute. `nonce` stands for the random bytes of an encryption. -/
structure Nostr (K : Type) where
  publicKey : K → PublicKey
  generateSharedKey : K → PublicKey → Option Bytes
  hkdf : (salt ikm info : Bytes) → Bytes
  nip44Encrypt : (shared nonce : Bytes) → String → Option String
  nip44Decrypt : (shared : Bytes) → String → Option String
  sign : K → Unsigned → Option Event
  verify : Event → Bool
  toJson : PairingMessage → String
  fromJson : String → Option PairingMessage

section Derive

variable {K : Type} (N : Nostr K)

def infoBytes (text : String) : Bytes := Codes.utf8 text.toList

def deriveSessionId (sessionSecret : Bytes) : Bytes :=
  N.hkdf [] sessionSecret (infoBytes "nostr-pair-session-id")

/-- The code is the first four bytes, as a big-endian number, modulo a million. -/
def deriveSas (ecdhShared sessionSecret : Bytes) : Nat × Bytes :=
  let sasInput := N.hkdf sessionSecret ecdhShared (infoBytes "nostr-pair-sas-v1")
  ((sasInput.take 4).foldl (fun n b => 256 * n + b.toNat) 0 % 1000000, sasInput)

def deriveTranscriptHash (sessionId sourcePubkey targetPubkey sasInput sessionSecret : Bytes) :
    Bytes :=
  N.hkdf sessionSecret (sessionId ++ sourcePubkey ++ targetPubkey ++ sasInput)
    (infoBytes "nostr-pair-transcript-v1")

def formatSas (code : Nat) : String :=
  let digits := Nat.toDigits 10 code
  String.ofList (List.replicate (6 - digits.length) '0' ++ digits)

end Derive

/-! ## Sessions -/

inductive Role where
  | source
  | target
deriving DecidableEq

inductive SessionState where
  | waiting
  | confirming
  | awaitingConfirmation
  | transferring
  | payloadExchanged
  | completed
  | aborted
deriving DecidableEq

def Role.debug : Role → String
  | source => "Source"
  | target => "Target"

def SessionState.debug : SessionState → String
  | waiting => "Waiting"
  | confirming => "Confirming"
  | awaitingConfirmation => "AwaitingConfirmation"
  | transferring => "Transferring"
  | payloadExchanged => "PayloadExchanged"
  | completed => "Completed"
  | aborted => "Aborted"

structure QrPayload where
  version : Nat
  sourcePubkey : PublicKey
  sessionSecret : Bytes
  relays : List String

structure PairingSession (K : Type) where
  role : Role
  state : SessionState
  keys : K
  sessionSecret : Bytes
  relayUrls : List String
  peerPubkey : Option PublicKey
  sessionId : Bytes
  sasCode : Option Nat
  sasInput : Option Bytes
  processedIds : List Bytes
  createdAt : Nat
  timeout : Nat
deriving DecidableEq

def defaultTimeout : Nat := 120000

namespace PairingSession

variable {K : Type} (N : Nostr K) (s : PairingSession K)

/-! ## Checks -/

def isExpired (now : Nat) : Bool := s.timeout < now - s.createdAt

def checkExpired (now : Nat) : Except PairingError Unit :=
  if s.isExpired now then .error .sessionExpired else .ok ()

def expectState (expected : SessionState) : Except PairingError Unit :=
  if s.state ≠ expected then
    .error (.unexpectedMessage ("state " ++ expected.debug) ("state " ++ s.state.debug))
  else .ok ()

def expectRole (expected : Role) : Except PairingError Unit :=
  if s.role ≠ expected then
    .error (.unexpectedMessage ("role " ++ expected.debug) ("role " ++ s.role.debug))
  else .ok ()

def enter (now : Nat) (state : SessionState) (role : Role) : Except PairingError Unit := do
  s.checkExpired now
  s.expectState state
  s.expectRole role

/-- A tag `p` with the own key. -/
def hasPTag (e : Event) : Bool :=
  e.tags.any fun t => t[0]? = some "p" && t[1]? = some (N.publicKey s.keys).toHex

def validateEventBasics (e : Event) : Except PairingError Unit :=
  if !N.verify e then .error (.invalidPubkey "event verification failed")
  else if e.id ∈ s.processedIds then .error (.unexpectedMessage "new event" "duplicate event id")
  else if e.kind ≠ kindPairing then
    .error (.unexpectedMessage ("kind " ++ toString kindPairing) ("kind " ++ toString e.kind))
  else if !s.hasPTag N e then
    .error (.invalidPubkey "event p-tag does not match our ephemeral pubkey")
  else .ok ()

def validateEventFromPeer (e : Event) : Except PairingError Unit := do
  s.validateEventBasics N e
  match s.peerPubkey with
  | some expected =>
    if e.pubkey ≠ expected then
      .error (.invalidPubkey
        ("event from " ++ e.pubkey.toHex ++ " but expected " ++ expected.toHex))
    else .ok ()
  | none => .ok ()

def decryptMessage (e : Event) : Except PairingError PairingMessage :=
  let contentLen := e.content.utf8ByteSize
  if contentLen < 132 ∨ 87472 < contentLen then
    .error (.unexpectedMessage "NIP-44 content (132–87472 chars)" (toString contentLen ++ " chars"))
  else
    match (N.generateSharedKey s.keys e.pubkey).bind (N.nip44Decrypt · e.content) with
    | none => .error .nip44
    | some decrypted =>
      if 65535 < decrypted.utf8ByteSize then
        .error (.unexpectedMessage "plaintext ≤ 65535 bytes"
          (toString decrypted.utf8ByteSize ++ " bytes"))
      else
        match N.fromJson decrypted with
        | none => .error .json
        | some msg => .ok msg

def receive (now : Nat) (state : SessionState) (role : Role) (e : Event) :
    Except PairingError PairingMessage := do
  s.enter now state role
  s.validateEventFromPeer N e
  s.decryptMessage N e

/-- `ts` is the time of the event, with its jitter. -/
def buildEvent (message : PairingMessage) (nonce : Bytes) (ts : Nat) : Except PairingError Event :=
  match s.peerPubkey with
  | none => .error (.invalidPubkey "no peer pubkey set")
  | some peer =>
    match (N.generateSharedKey s.keys peer).bind (N.nip44Encrypt · nonce (N.toJson message)) with
    | none => .error .nip44
    | some encrypted =>
      match N.sign s.keys
          ⟨N.publicKey s.keys, ts, kindPairing, [["p", peer.toHex]], encrypted⟩ with
      | none => .error .signingError
      | some e => .ok e

def recordEvent (e : Event) : PairingSession K := { s with processedIds := e.id :: s.processedIds }

/-! ## The source -/

def newSource (keys : K) (sessionSecret : Bytes) (relayUrl : String) (now : Nat) :
    PairingSession K × QrPayload :=
  (⟨.source, .waiting, keys, sessionSecret, [relayUrl], none, deriveSessionId N sessionSecret, none,
    none, [], now, defaultTimeout⟩, ⟨1, N.publicKey keys, sessionSecret, [relayUrl]⟩)

def handleOffer (now : Nat) (e : Event) : Except PairingError String × PairingSession K :=
  let checked : Except PairingError PairingMessage := do
    s.enter now .waiting .source
    s.validateEventBasics N e
    s.decryptMessage N e
  match checked with
  | .error err => (.error err, s)
  | .ok (.offer sessionId version) =>
    if version ≠ 1 then
      (.error (.unexpectedMessage "version 1" ("version " ++ toString version)), s)
    else if decodeHash sessionId ≠ some s.sessionId then (.error .invalidSessionId, s)
    else
      let s := { s with peerPubkey := some e.pubkey }
      match N.generateSharedKey s.keys e.pubkey with
      | none => (.error .signingError, s)
      | some ecdh =>
        let (code, sasInput) := deriveSas N ecdh s.sessionSecret
        let s := { s with
          sasCode := some code
          sasInput := some sasInput
          state := .confirming }
        (.ok (formatSas code), s.recordEvent e)
  | .ok other => (.error (unexpected "offer" other), s)

def confirmSas (now : Nat) (nonce : Bytes) (ts : Nat) :
    Except PairingError Event × PairingSession K :=
  let built : Except PairingError Event := do
    s.enter now .confirming .source
    match s.sasInput, s.peerPubkey with
    | none, _ => .error .sasMismatch
    | _, none => .error (.invalidPubkey "no peer")
    | some sasInput, some peer =>
      let transcriptHash := deriveTranscriptHash N s.sessionId (N.publicKey s.keys).bytes peer.bytes
        sasInput s.sessionSecret
      s.buildEvent N (.sasConfirm (String.ofList (hexEncode transcriptHash))) nonce ts
  match built with
  | .error err => (.error err, s)
  | .ok e => (.ok e, { s with state := .transferring })

/-- The same for both roles: `handle_payload` and `handle_return_payload`. -/
def acceptPayload (role : Role) (now : Nat) (e : Event) :
    Except PairingError (PayloadType × String) × PairingSession K :=
  match s.receive N now .transferring role e with
  | .error err => (.error err, s)
  | .ok (.payload payloadType payload) =>
    (.ok (payloadType, payload), ({ s with state := .payloadExchanged }).recordEvent e)
  | .ok other => (.error (unexpected "payload" other), s)

def handleReturnPayload (now : Nat) (e : Event) :
    Except PairingError (PayloadType × String) × PairingSession K :=
  s.acceptPayload N .source now e

def send (state : SessionState) (role : Role) (next : SessionState) (message : PairingMessage)
    (now : Nat) (nonce : Bytes) (ts : Nat) : Except PairingError Event × PairingSession K :=
  let built : Except PairingError Event := do
    s.enter now state role
    s.buildEvent N message nonce ts
  match built with
  | .error err => (.error err, s)
  | .ok e => (.ok e, { s with state := next })

def sendSourceComplete (success : Bool) (now : Nat) (nonce : Bytes) (ts : Nat) :
    Except PairingError Event × PairingSession K :=
  s.send N .payloadExchanged .source (if success then .completed else .aborted) (.complete success)
    now nonce ts

def sendPayload (payloadType : PayloadType) (payload : String) (now : Nat) (nonce : Bytes)
    (ts : Nat) : Except PairingError Event × PairingSession K :=
  s.send N .transferring .source .payloadExchanged (.payload payloadType payload) now nonce ts

def handleComplete (now : Nat) (e : Event) : Except PairingError Unit × PairingSession K :=
  match s.receive N now .payloadExchanged .source e with
  | .error err => (.error err, s)
  | .ok (.complete true) => (.ok (), ({ s with state := .completed }).recordEvent e)
  | .ok (.complete false) =>
    (.error (.unexpectedMessage "complete(success=true)" "complete(success=false)"),
      { s with state := .aborted })
  | .ok other => (.error (unexpected "complete" other), s)

/-! ## The target -/

def newTarget (qr : QrPayload) (keys : K) (now : Nat) (nonce : Bytes) (ts : Nat) :
    Except PairingError (PairingSession K × Event) :=
  let sessionId := deriveSessionId N qr.sessionSecret
  match N.generateSharedKey keys qr.sourcePubkey with
  | none => .error .signingError
  | some ecdh =>
    let (code, sasInput) := deriveSas N ecdh qr.sessionSecret
    let session : PairingSession K := ⟨.target, .waiting, keys, qr.sessionSecret, qr.relays,
      some qr.sourcePubkey, sessionId, some code, some sasInput, [], now, defaultTimeout⟩
    match session.buildEvent N (.offer (String.ofList (hexEncode sessionId)) 1) nonce ts with
    | .error err => .error err
    | .ok e => .ok ({ session with state := .confirming }, e)

def handleSasConfirm (now : Nat) (e : Event) : Except PairingError String × PairingSession K :=
  match s.receive N now .confirming .target e with
  | .error err => (.error err, s)
  | .ok (.sasConfirm receivedHash) =>
    match s.sasInput, s.peerPubkey with
    | none, _ => (.error .sasMismatch, s)
    | _, none => (.error (.invalidPubkey "no peer"), s)
    | some sasInput, some peer =>
      let expectedHash := deriveTranscriptHash N s.sessionId peer.bytes (N.publicKey s.keys).bytes
        sasInput s.sessionSecret
      if decodeHash receivedHash ≠ some expectedHash then
        (.error .transcriptMismatch, { s with state := .aborted })
      else
        let s := ({ s with state := .awaitingConfirmation }).recordEvent e
        match s.sasCode with
        | none => (.error .sasMismatch, s)
        | some code => (.ok (formatSas code), s)
  | .ok other => (.error (unexpected "sas-confirm" other), s)

def confirmTargetSas (now : Nat) : Except PairingError Unit × PairingSession K :=
  match s.enter now .awaitingConfirmation .target with
  | .error err => (.error err, s)
  | .ok () => (.ok (), { s with state := .transferring })

def handlePayload (now : Nat) (e : Event) :
    Except PairingError (PayloadType × String) × PairingSession K :=
  s.acceptPayload N .target now e

def sendComplete (now : Nat) (nonce : Bytes) (ts : Nat) :
    Except PairingError Event × PairingSession K :=
  s.send N .payloadExchanged .target .completed (.complete true) now nonce ts

/-! ## Both -/

def isTerminal : Bool := s.state = .completed || s.state = .aborted

def alreadyOver : PairingError :=
  .unexpectedMessage "non-terminal state" ("state " ++ s.state.debug)

/-- Without a peer there is nobody to tell. -/
def abort (reason : AbortReason) (nonce : Bytes) (ts : Nat) :
    Except PairingError (Option Event) × PairingSession K :=
  if s.isTerminal then (.error s.alreadyOver, s)
  else if s.peerPubkey.isNone then (.ok none, { s with state := .aborted })
  else
    match s.buildEvent N (.abort reason) nonce ts with
    | .error err => (.error err, s)
    | .ok e => (.ok (some e), { s with state := .aborted })

def handleAbort (e : Event) : Except PairingError AbortReason × PairingSession K :=
  if s.isTerminal then (.error s.alreadyOver, s)
  else if s.peerPubkey.isNone then
    (.error (.invalidPubkey "cannot accept abort before peer is known"), s)
  else
    let received : Except PairingError PairingMessage := do
      s.validateEventFromPeer N e
      s.decryptMessage N e
    match received with
    | .error err => (.error err, s)
    | .ok (.abort reason) => (.ok reason, ({ s with state := .aborted }).recordEvent e)
    | .ok other => (.error (unexpected "abort" other), s)

end PairingSession

end Vingilot.Pairing
