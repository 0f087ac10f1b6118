import Vingilot.Lib.Collections
import Vingilot.Lib.Machine
import Vingilot.Pairing.Session

/-!
# Endpoints that pair

Any number of sessions, whose calls come in any order with any events. Cryptography is ideal: new
keys are fresh, and what verifies under the key of a session has been signed by it.
-/

namespace Vingilot.Pairing

/-! ## Calls -/

inductive Call where
  | handleOffer (e : Event)
  | confirmSas (nonce : Bytes) (ts : Nat)
  | handleReturnPayload (e : Event)
  | sendSourceComplete (success : Bool) (nonce : Bytes) (ts : Nat)
  | sendPayload (payloadType : PayloadType) (payload : String) (nonce : Bytes) (ts : Nat)
  | handleComplete (e : Event)
  | handleSasConfirm (e : Event)
  | confirmTargetSas
  | handlePayload (e : Event)
  | sendComplete (nonce : Bytes) (ts : Nat)
  | abort (reason : AbortReason) (nonce : Bytes) (ts : Nat)
  | handleAbort (e : Event)
deriving DecidableEq

namespace Call

def event? : Call → Option Event
  | handleOffer e | handleReturnPayload e | handleComplete e | handleSasConfirm e | handlePayload e
  | handleAbort e => some e
  | _ => none

def sends : Call → List (PayloadType × String)
  | sendPayload payloadType payload _ _ => [(payloadType, payload)]
  | _ => []

def isConfirmSas : Call → Bool
  | confirmSas .. => true
  | _ => false

def isTranscriptCheck : Call → Bool
  | handleSasConfirm _ => true
  | _ => false

end Call

inductive Reply where
  | sas (code : String)
  | event (e : Event)
  | payload (x : PayloadType × String)
  | reason (reason : AbortReason)
  | done
deriving DecidableEq

namespace Reply

def accepts : Reply → List (PayloadType × String)
  | payload x => [x]
  | _ => []

def signs : Reply → List Unsigned
  | event e => [e.toUnsigned]
  | _ => []

/-- `abort` has nothing to publish when no peer is known. -/
def ofOption : Option Event → Reply
  | some e => event e
  | none => done

end Reply

variable {K : Type}

def PairingSession.call (N : Nostr K) (s : PairingSession K) (now : Nat) :
    Call → Except PairingError Reply × PairingSession K
  | .handleOffer e => (s.handleOffer N now e).map (·.map .sas) id
  | .confirmSas nonce ts => (s.confirmSas N now nonce ts).map (·.map .event) id
  | .handleReturnPayload e => (s.handleReturnPayload N now e).map (·.map .payload) id
  | .sendSourceComplete success nonce ts =>
    (s.sendSourceComplete N success now nonce ts).map (·.map .event) id
  | .sendPayload payloadType payload nonce ts =>
    (s.sendPayload N payloadType payload now nonce ts).map (·.map .event) id
  | .handleComplete e => (s.handleComplete N now e).map (·.map fun _ => .done) id
  | .handleSasConfirm e => (s.handleSasConfirm N now e).map (·.map .sas) id
  | .confirmTargetSas => (s.confirmTargetSas now).map (·.map fun _ => .done) id
  | .handlePayload e => (s.handlePayload N now e).map (·.map .payload) id
  | .sendComplete nonce ts => (s.sendComplete N now nonce ts).map (·.map .event) id
  | .abort reason nonce ts => (s.abort N reason nonce ts).map (·.map .ofOption) id
  | .handleAbort e => (s.handleAbort N e).map (·.map .reason) id

/-! ## Endpoints -/

/-- A session and what has happened in it: the code a target has scanned, whether the source has
confirmed its digits, whether the target's transcript check has passed and its user has approved, and
the payloads. -/
structure Endpoint (K : Type) where
  session : PairingSession K
  qr : Option QrPayload
  confirmed : Bool
  checked : Bool
  approved : Bool
  sent : List (PayloadType × String)
  accepted : List (PayloadType × String)

namespace Endpoint

def new (s : PairingSession K) (qr : Option QrPayload) : Endpoint K :=
  ⟨s, qr, false, false, false, [], []⟩

def after (x : Endpoint K) (c : Call) (reply : Option Reply) (s : PairingSession K) : Endpoint K :=
  match reply with
  | none => { x with session := s }
  | some reply =>
    { x with
      session := s
      confirmed := x.confirmed || c.isConfirmSas
      checked := x.checked || c.isTranscriptCheck
      approved := x.approved || c = .confirmTargetSas
      sent := x.sent ++ c.sends
      accepted := x.accepted ++ reply.accepts }

def publicKey (N : Nostr K) (x : Endpoint K) : PublicKey := N.publicKey x.session.keys

end Endpoint

/-- `signed` has all that the keys of the sessions have signed. -/
structure Pairings (K : Type) where
  endpoints : Table Nat (Endpoint K)
  signed : List Unsigned

namespace Pairings

def init : Pairings K := ⟨∅, []⟩

def Fresh (N : Nostr K) (w : Pairings K) (p : PublicKey) : Prop :=
  ∀ i x, w.endpoints.get? i = some x → x.publicKey N ≠ p ∧ x.session.peerPubkey ≠ some p

def Authentic (N : Nostr K) (w : Pairings K) (e : Event) : Prop :=
  N.verify e = true → ∀ i x, w.endpoints.get? i = some x → e.pubkey = x.publicKey N →
    e.toUnsigned ∈ w.signed

end Pairings

inductive PairAction (K : Type) where
  | newSource (i : Nat) (keys : K) (sessionSecret : Bytes) (relayUrl : String) (now : Nat)
  | newTarget (i : Nat) (qr : QrPayload) (keys : K) (now : Nat) (nonce : Bytes) (ts : Nat)
  | call (i now : Nat) (c : Call)
  /-- `sign_event`, which is for the relay's authentication. -/
  | signEvent (i createdAt kind : Nat) (tags : List (List String)) (content : String)

def pairStep (N : Nostr K) (w : Pairings K) : PairAction K → Option (Pairings K)
  | .newSource i keys sessionSecret relayUrl now =>
    match w.endpoints.get? i with
    | some _ => none
    | none =>
      let (s, _) := PairingSession.newSource N keys sessionSecret relayUrl now
      some { w with endpoints := w.endpoints.set i (.new s none) }
  | .newTarget i qr keys now nonce ts =>
    match w.endpoints.get? i, PairingSession.newTarget N qr keys now nonce ts with
    | none, .ok (s, e) => some ⟨w.endpoints.set i (.new s (some qr)), w.signed ++ [e.toUnsigned]⟩
    | _, _ => none
  | .call i now c =>
    match w.endpoints.get? i with
    | none => none
    | some x =>
      let (result, s) := x.session.call N now c
      some ⟨w.endpoints.set i (x.after c result.toOption s),
        w.signed ++ result.toOption.elim [] Reply.signs⟩
  | .signEvent i createdAt kind tags content =>
    match w.endpoints.get? i with
    | none => none
    | some x => some { w with signed := w.signed ++ [⟨x.publicKey N, createdAt, kind, tags, content⟩] }

/-- Ideal cryptography, and a caller of `sign_event` that does not sign a pairing event with it. -/
def Ideal (N : Nostr K) (w : Pairings K) : PairAction K → Prop
  | .newSource _ keys _ _ _ => w.Fresh N (N.publicKey keys)
  | .newTarget _ _ keys _ _ _ => w.Fresh N (N.publicKey keys)
  | .call _ _ c => ∀ e ∈ c.event?, w.Authentic N e
  | .signEvent _ _ kind _ _ => kind ≠ kindPairing

structure Nostr.Lawful (N : Nostr K) : Prop where
  decrypt_encrypt : ∀ shared nonce plaintext content,
    N.nip44Encrypt shared nonce plaintext = some content →
      N.nip44Decrypt shared content = some plaintext
  fromJson_toJson : ∀ message, N.fromJson (N.toJson message) = some message
  sharedKey_comm : ∀ k k',
    N.generateSharedKey k (N.publicKey k') = N.generateSharedKey k' (N.publicKey k)
  sign_toUnsigned : ∀ k u e, N.sign k u = some e → e.toUnsigned = u

end Vingilot.Pairing
