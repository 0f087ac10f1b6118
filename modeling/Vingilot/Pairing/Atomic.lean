import Vingilot.Pairing.Effects
import Vingilot.Pairing.Messages

/-!
# A call that fails changes nothing

Two errors end the session: a confirmation with another transcript, and a peer that reports failure.
Every other error leaves the session as it was.
-/

namespace Vingilot.Pairing

variable {K : Type} {N : Nostr K} {s s' : PairingSession K} {now : Nat}

inductive Reachable (N : Nostr K) : PairingSession K → Prop
  | newSource (keys : K) (sessionSecret : Bytes) (relayUrl : String) (now : Nat) :
      Reachable N (PairingSession.newSource N keys sessionSecret relayUrl now).1
  | newTarget {s : PairingSession K} {e : Event} (qr : QrPayload) (keys : K) (now : Nat)
      (nonce : Bytes) (ts : Nat) (h : PairingSession.newTarget N qr keys now nonce ts = .ok (s, e)) :
      Reachable N s
  | call {s : PairingSession K} (h : Reachable N s) (now : Nat) (c : Call) :
      Reachable N (s.call N now c).2

inductive Ends (N : Nostr K) (s : PairingSession K) (now : Nat) : Call → PairingError → Prop
  | mismatch {e : Event} {receivedHash : String} {sasInput : Bytes} {peer : PublicKey}
      (hreceived : s.receive N now .confirming .target e = .ok (.sasConfirm receivedHash))
      (hinput : s.sasInput = some sasInput) (hpeer : s.peerPubkey = some peer)
      (hdiffers : decodeHash receivedHash ≠ some (deriveTranscriptHash N s.sessionId peer.bytes
        (N.publicKey s.keys).bytes sasInput s.sessionSecret)) :
      Ends N s now (.handleSasConfirm e) .transcriptMismatch
  | failure {e : Event}
      (hreceived : s.receive N now .payloadExchanged .source e = .ok (.complete false)) :
      Ends N s now (.handleComplete e)
        (.unexpectedMessage "complete(success=true)" "complete(success=false)")

/-- What a call comes to. A session that has the input of its code but not the code itself is not
reachable. -/
inductive Outcome (N : Nostr K) (s : PairingSession K) (now : Nat) (c : Call) :
    Except PairingError Reply × PairingSession K → Prop
  | refused (err : PairingError) (h : ¬ Ends N s now c err) : Outcome N s now c (.error err, s)
  | ended (err : PairingError) (h : Ends N s now c err) :
      Outcome N s now c (.error err, { s with state := .aborted })
  | uncoded (err : PairingError) (s' : PairingSession K) (hinput : s.sasInput ≠ none)
      (hcode : s.sasCode = none) : Outcome N s now c (.error err, s')
  | done (reply : Reply) (s' : PairingSession K)
      (h : s'.sasCode ≠ none ∨ s'.sasCode = s.sasCode ∧ s'.sasInput = s.sasInput) :
      Outcome N s now c (.ok reply, s')

/-! ## Every call has one of these outcomes -/

theorem outcome_send {c : Call} (hc : ∀ err, ¬ Ends N s now c err) (state : SessionState)
    (role : Role) (next : SessionState) (message : PairingMessage) (nonce : Bytes) (ts : Nat) :
    Outcome N s now c
      ((s.send N state role next message now nonce ts).map (·.map .event) id) := by
  obtain ⟨err, h⟩ | ⟨e, -, -, -, h⟩ := s.send_cases N state role next message now nonce ts
  · rw [h]
    exact .refused err (hc err)
  · rw [h]
    exact .done _ _ (.inr ⟨rfl, rfl⟩)

theorem outcome_accept {c : Call} (hc : ∀ err, ¬ Ends N s now c err) (role : Role) (e : Event) :
    Outcome N s now c ((s.acceptPayload N role now e).map (·.map .payload) id) := by
  obtain ⟨err, h⟩ | ⟨_, _, -, -, -, h⟩ := s.acceptPayload_cases N role now e
  · rw [h]
    exact .refused err (hc err)
  · rw [h]
    exact .done _ _ (.inr ⟨rfl, rfl⟩)

theorem outcome_handleComplete (e : Event) :
    Outcome N s now (.handleComplete e) ((s.handleComplete N now e).map (·.map fun _ => .done) id) := by
  unfold PairingSession.handleComplete
  cases hreceived : s.receive N now .payloadExchanged .source e with
  | error err =>
    refine .refused err fun hends => ?_
    cases hends with
    | failure h =>
      rw [hreceived] at h
      cases h
  | ok message =>
    have hother (err : PairingError) (hmessage : message ≠ .complete false) :
        ¬ Ends N s now (.handleComplete e) err := by
      intro hends
      cases hends with
      | failure h =>
        rw [hreceived] at h
        exact hmessage (Except.ok.inj h)
    cases message with
    | complete success =>
      cases success with
      | true => exact .done _ _ (.inr ⟨rfl, rfl⟩)
      | false => exact .ended _ (.failure hreceived)
    | offer => exact .refused _ (hother _ nofun)
    | sasConfirm => exact .refused _ (hother _ nofun)
    | payload => exact .refused _ (hother _ nofun)
    | abort => exact .refused _ (hother _ nofun)

theorem outcome_handleSasConfirm (e : Event) :
    Outcome N s now (.handleSasConfirm e) ((s.handleSasConfirm N now e).map (·.map .sas) id) := by
  -- Only a confirmation can end the session.
  have hends {err : PairingError} (h : Ends N s now (.handleSasConfirm e) err) :
      err = .transcriptMismatch ∧ ∃ receivedHash sasInput peer,
        s.receive N now .confirming .target e = .ok (.sasConfirm receivedHash) ∧
          s.sasInput = some sasInput ∧ s.peerPubkey = some peer := by
    cases h with
    | mismatch hreceived hinput hpeer hdiffers =>
      exact ⟨rfl, _, _, _, hreceived, hinput, hpeer⟩
  unfold PairingSession.handleSasConfirm
  cases hreceived : s.receive N now .confirming .target e with
  | error err =>
    refine .refused err fun h => ?_
    obtain ⟨-, _, _, _, hok, -⟩ := hends h
    rw [hreceived] at hok
    cases hok
  | ok message =>
    have hother (err : PairingError) (hmessage : ∀ text, message ≠ .sasConfirm text) :
        ¬ Ends N s now (.handleSasConfirm e) err := by
      intro h
      obtain ⟨-, _, _, _, hok, -⟩ := hends h
      rw [hreceived] at hok
      exact hmessage _ (Except.ok.inj hok)
    cases message with
    | sasConfirm receivedHash =>
      dsimp only
      split
      · next hinput =>
        refine .refused _ fun h => ?_
        obtain ⟨-, _, _, _, -, hsome, -⟩ := hends h
        rw [hinput] at hsome
        cases hsome
      · next hpeer _ =>
        refine .refused _ fun h => ?_
        obtain ⟨-, _, _, _, -, -, hsome⟩ := hends h
        rw [hpeer] at hsome
        cases hsome
      · next sasInput peer hinput hpeer =>
        split_ifs with hdiffers
        · exact .ended _ (.mismatch hreceived hinput hpeer hdiffers)
        · split
          · next hcode => exact .uncoded _ _ (by rw [hinput]; exact nofun) hcode
          · exact .done _ _ (.inr ⟨rfl, rfl⟩)
    | offer => exact .refused _ (hother _ nofun)
    | complete => exact .refused _ (hother _ nofun)
    | payload => exact .refused _ (hother _ nofun)
    | abort => exact .refused _ (hother _ nofun)

theorem outcome_call (N : Nostr K) (s : PairingSession K) (now : Nat) (c : Call) :
    Outcome N s now c (s.call N now c) := by
  cases c with
  | handleOffer e =>
    simp only [PairingSession.call]
    obtain ⟨err, h⟩ | ⟨_, _, _, -, -, h⟩ := s.handleOffer_cases N now e
    · rw [h]
      refine .refused err fun hends => ?_
      cases hends
    · rw [h]
      exact .done _ _ (.inl (by rintro ⟨⟩))
  | confirmSas nonce ts =>
    simp only [PairingSession.call]
    obtain ⟨err, h⟩ | ⟨_, _, -, -, -, h⟩ := s.confirmSas_cases N now nonce ts
    · rw [h]
      refine .refused err fun hends => ?_
      cases hends
    · rw [h]
      exact .done _ _ (.inr ⟨rfl, rfl⟩)
  | handleReturnPayload e => exact outcome_accept (by rintro err ⟨⟩) .source e
  | sendSourceComplete success nonce ts => exact outcome_send (by rintro err ⟨⟩) ..
  | sendPayload payloadType payload nonce ts => exact outcome_send (by rintro err ⟨⟩) ..
  | handleComplete e => exact outcome_handleComplete e
  | handleSasConfirm e => exact outcome_handleSasConfirm e
  | confirmTargetSas =>
    simp only [PairingSession.call]
    obtain ⟨err, h⟩ | ⟨-, -, h⟩ := s.confirmTargetSas_cases now
    · rw [h]
      refine .refused err fun hends => ?_
      cases hends
    · rw [h]
      exact .done _ _ (.inr ⟨rfl, rfl⟩)
  | handlePayload e => exact outcome_accept (by rintro err ⟨⟩) .target e
  | sendComplete nonce ts => exact outcome_send (by rintro err ⟨⟩) ..
  | abort reason nonce ts =>
    simp only [PairingSession.call]
    obtain ⟨err, h⟩ | ⟨-, _, -, h⟩ := s.abort_cases N reason nonce ts
    · rw [h]
      refine .refused err fun hends => ?_
      cases hends
    · rw [h]
      exact .done _ _ (.inr ⟨rfl, rfl⟩)
  | handleAbort e =>
    simp only [PairingSession.call]
    obtain ⟨err, h⟩ | ⟨-, _, h⟩ := s.handleAbort_cases N e
    · rw [h]
      refine .refused err fun hends => ?_
      cases hends
    · rw [h]
      exact .done _ _ (.inr ⟨rfl, rfl⟩)

/-! ## Every reachable session has the code with its input -/

theorem reachable_coded (h : Reachable N s) : s.sasInput ≠ none → s.sasCode ≠ none := by
  induction h with
  | newSource keys sessionSecret relayUrl now => exact fun hinput => absurd rfl hinput
  | newTarget qr keys now nonce ts hnew =>
    unfold PairingSession.newTarget at hnew
    dsimp only at hnew
    split at hnew
    · cases hnew
    · split at hnew
      · cases hnew
      · cases hnew
        exact fun _ => nofun
  | @call s h now c ih =>
    have houtcome := outcome_call N s now c
    generalize s.call N now c = result at houtcome
    cases houtcome with
    | refused err hends => exact ih
    | ended err hends => exact ih
    | uncoded err s' hinput hcode => exact absurd hcode (ih hinput)
    | done reply s' hcodes =>
      rcases hcodes with hcode | ⟨hcode, hinput⟩
      · exact fun _ => hcode
      · rw [hcode, hinput]
        exact ih

/-- A call that fails leaves the session as it was, or ends it with one of the two errors. -/
theorem failed_call_is_atomic (h : Reachable N s) (now : Nat) (c : Call) (err : PairingError)
    (hfail : (s.call N now c).1 = .error err) :
    (Ends N s now c err ∧ (s.call N now c).2 = { s with state := .aborted }) ∨
      (¬ Ends N s now c err ∧ (s.call N now c).2 = s) := by
  have houtcome := outcome_call N s now c
  generalize s.call N now c = result at houtcome hfail
  cases houtcome with
  | refused err' hends =>
    cases hfail
    exact .inr ⟨hends, rfl⟩
  | ended err' hends =>
    cases hfail
    exact .inl ⟨hends, rfl⟩
  | uncoded err' s' hinput hcode => exact absurd hcode (reachable_coded h hinput)
  | done reply s' hcodes => cases hfail

/-! ## Two devices -/

def generatorKey : PublicKey where
  bytes := [121, 190, 102, 126, 249, 220, 187, 172, 85, 160, 98, 149, 206, 135, 11, 7,
    2, 155, 252, 219, 45, 206, 40, 217, 89, 242, 129, 91, 22, 248, 23, 152]
  length_eq := rfl

def zeroSecret : Bytes := List.replicate 32 0

inductive DeviceKey where
  | one
  | two
deriving DecidableEq

def doubledKey : PublicKey where
  bytes := Codes.beBytes 32 0xc6047f9441ed7d6d3045406e95c07cd85c778e4b8cef3ca7abac09b95c709ee5
  length_eq := Codes.length_beBytes _ _

def pairingSessionId : Bytes :=
  Codes.beBytes 32 0xe417d4d3432ee23ef2509238d8d6abe3be9e003877390f3d92ac5a04432626d0

def pairingSasInput : Bytes :=
  Codes.beBytes 32 0x678dbba563f61ad4dc37642e29de30fdad7f4310fd65c748aa5ac32ae6d87533

def pairingTranscript : Bytes :=
  Codes.beBytes 32 0x59bea70dc9fec82f0c79aeabf9631e1ed3af8c9c061fa9d5a5a2c4cd7b6875ed

def nonceOf (n : UInt8) : Bytes := List.replicate 31 0 ++ [n]

def offerContent : String :=
  "AgAAAAAAAAAAAAAAAAAAAAAAAAAAAAAAAAAAAAAAAAABeYAcxyDzo5p68LBhCm0mW9QoIEOSlZYNcE4rfuTSl+E/PYtcEleK4vlmUSRKjY6lToYakZijqbGJ6ldJEMqwemo//RB1wO8fOLZ8OgstuP4zOY05bGLY0NGcXIYHxR4G4dTNZP9LuRCaHxjAMA79xuMZX6hb6Hx+UZJ5U368jj+m+Koaco0jD6gvL9eXZ9NSkiJfJKo+aEMZrRxFJjiFv1o2"

def confirmContent : String :=
  "AgAAAAAAAAAAAAAAAAAAAAAAAAAAAAAAAAAAAAAAAAACG95BPvBMwT4AxOGlaZPCVmqvsUw3WSYcyIUdaRgdIE/WSDhIHL91g2SyeFHo5m6xg1I/txbXOMRh5MDy+ha3ctmnh+jWTPIq9qvFcvk62WOhrCFo0b5dYscNsDHy8jzgsXOLNr3xQ2WWoyxjMGE32gd/CY+DBzSvv/8pkiWXTCNqpPgOKY4pg+TQk4+a7etSzDrJ+lHkQhIzgYiiY6Oe15iH"

def payloadContent : String :=
  "AgAAAAAAAAAAAAAAAAAAAAAAAAAAAAAAAAAAAAAAAAADubS8i0K75ucLnp23SeM9MXTma1rnJFmfVnUaZP9fznVqHwlLSFU0VUHy0YPZtM9TdIfGhKPGeNeSHp2sU3yQd3IXPZ8viMuqIJBCiBb2OMV1aVcn55KB+Xh2kj3W/mppr64="

def offerEvent : Event where
  pubkey := doubledKey
  createdAt := 1
  kind := kindPairing
  tags := [["p", generatorKey.toHex]]
  content := offerContent
  id := Codes.beBytes 32 0xa1454de663917799a83f1044275478b93227b5e2df21dea4f77b7887ce8477dc
  sig :=
    Codes.beBytes 32 0x84c44b82b94c641f7218cdc89e7870695b9e4441193bfb3567d8aab373d1424b ++
      Codes.beBytes 32 0xdb7892129dab44e8e2ef3f9630c33e2706900cecf9fba5aabcf7d28aef9942ac

def confirmEvent : Event where
  pubkey := generatorKey
  createdAt := 3
  kind := kindPairing
  tags := [["p", doubledKey.toHex]]
  content := confirmContent
  id := Codes.beBytes 32 0xc6b6442dffbf7582942eda63dce8f0c664f8347cefc3732c89a0d307def5f097
  sig :=
    Codes.beBytes 32 0xb7c53591b91d85d560e4cab01f200c8b645be1b9479379aa4ac5266142288c9c ++
      Codes.beBytes 32 0x40c57b964da73129be7853da1b4973a5958a7e344727f7a5a5c31e5af2d4bbf5

def payloadEvent : Event where
  pubkey := generatorKey
  createdAt := 6
  kind := kindPairing
  tags := [["p", doubledKey.toHex]]
  content := payloadContent
  id := Codes.beBytes 32 0x6aa0fcb767ec4a486aa562d7d21dafac34df474b5e465f8f3d63408f6d4e4988
  sig :=
    Codes.beBytes 32 0x87783edb448b7be2e6f6c2165b29ffb3008de17de747e824de1690197a030030 ++
      Codes.beBytes 32 0x183fb0b7ec4240266356d15aefbc899d0304d415d48e50767299279ea24b4c0d

def sealedTexts : List (Bytes × String × String) :=
  [(nonceOf 1, "\x7b\"type\":\"offer\",\"session_id\":\"e417d4d3432ee23ef2509238d8d6abe3be9e003877390f3d92ac5a04432626d0\",\"version\":1\x7d", offerContent),
    (nonceOf 2, "\x7b\"type\":\"sas-confirm\",\"transcript_hash\":\"59bea70dc9fec82f0c79aeabf9631e1ed3af8c9c061fa9d5a5a2c4cd7b6875ed\"\x7d",
      confirmContent),
    (nonceOf 3, "\x7b\"type\":\"payload\",\"payload_type\":\"custom\",\"payload\":\"hello\"\x7d",
      payloadContent)]

def signedEvents : List (DeviceKey × Event) :=
  [(.two, offerEvent), (.one, confirmEvent), (.one, payloadEvent)]

def twoDevices : Nostr DeviceKey where
  publicKey
    | .one => generatorKey
    | .two => doubledKey
  generateSharedKey k p :=
    if p = generatorKey then
      match k with
      | .one => some generatorKey.bytes
      | .two => some doubledKey.bytes
    else if p = doubledKey then
      match k with
      | .one => some doubledKey.bytes
      | .two => some
        (Codes.beBytes 32 0xe493dbf1c10d80f3581e4904930b1404cc6c13900ee0758474fa94abe8c4cd13)
    else none
  hkdf salt ikm info :=
    if salt = [] ∧ ikm = zeroSecret ∧ info = infoBytes "nostr-pair-session-id" then
      pairingSessionId
    else if salt = zeroSecret ∧ ikm = doubledKey.bytes ∧ info = infoBytes "nostr-pair-sas-v1" then
      pairingSasInput
    else if salt = zeroSecret ∧
        ikm = pairingSessionId ++ generatorKey.bytes ++ doubledKey.bytes ++ pairingSasInput ∧
        info = infoBytes "nostr-pair-transcript-v1" then
      pairingTranscript
    else []
  nip44Encrypt shared nonce plaintext :=
    if shared = doubledKey.bytes then
      (sealedTexts.find? fun x => x.1 = nonce ∧ x.2.1 = plaintext).map (·.2.2)
    else none
  nip44Decrypt shared content :=
    if shared = doubledKey.bytes then (sealedTexts.find? fun x => x.2.2 = content).map (·.2.1)
    else none
  sign k u := (signedEvents.find? fun x => x.1 = k ∧ x.2.createdAt = u.createdAt).map fun x =>
    { u with id := x.2.id, sig := x.2.sig }
  verify e := signedEvents.any fun x => x.2.id = e.id ∧ x.2.sig = e.sig
  toJson := PairingMessage.toJson
  fromJson := PairingMessage.fromJson

def sourceSession (state : SessionState) (seen : List Bytes) : PairingSession DeviceKey :=
  ⟨.source, state, .one, zeroSecret, ["wss://relay"], some doubledKey, pairingSessionId,
    some (deriveSas twoDevices doubledKey.bytes zeroSecret).1, some pairingSasInput, seen, 0,
    defaultTimeout⟩

def targetSession (state : SessionState) (seen : List Bytes) : PairingSession DeviceKey :=
  { sourceSession state seen with
    role := .target
    keys := .two
    peerPubkey := some generatorKey
    createdAt := 1 }

theorem newTarget_two : PairingSession.newTarget twoDevices
    ⟨1, generatorKey, zeroSecret, ["wss://relay"]⟩ .two 1 (nonceOf 1) 1 =
      .ok (targetSession .confirming [], offerEvent) := by
  decide +kernel

/-- One party computes another transcript. -/
def otherTranscript : Nostr DeviceKey :=
  { twoDevices with
    hkdf := fun salt ikm info =>
      if info = infoBytes "nostr-pair-transcript-v1" then zeroSecret else twoDevices.hkdf salt ikm info }

/-- A payload before its time is refused, and a confirmation of another transcript ends the
session. -/
theorem failed_call_is_atomic_two_devices :
    ((targetSession .confirming []).call twoDevices 4 (.handlePayload payloadEvent)).2 =
        targetSession .confirming [] ∧
      ((targetSession .confirming []).call otherTranscript 4 (.handleSasConfirm confirmEvent)).2 =
        targetSession .aborted [] := by
  have hearly : Reachable twoDevices (targetSession .confirming []) :=
    .newTarget _ _ _ _ _ newTarget_two
  have hother : Reachable otherTranscript (targetSession .confirming []) :=
    .newTarget (e := offerEvent) ⟨1, generatorKey, zeroSecret, ["wss://relay"]⟩ .two 1 (nonceOf 1) 1
      (by decide +kernel)
  constructor
  · obtain ⟨hends, -⟩ | ⟨-, hsame⟩ := failed_call_is_atomic hearly 4 (.handlePayload payloadEvent)
      (.unexpectedMessage "state Transferring" "state Confirming") (by decide +kernel)
    · cases hends
    · exact hsame
  · have hcall : (targetSession .confirming []).call otherTranscript 4
        (.handleSasConfirm confirmEvent) =
          (.error .transcriptMismatch, targetSession .aborted []) := by decide +kernel
    obtain ⟨-, hended⟩ | ⟨-, hsame⟩ := failed_call_is_atomic hother 4
      (.handleSasConfirm confirmEvent) .transcriptMismatch (by rw [hcall])
    · exact hended
    · rw [hcall] at hsame
      cases congrArg PairingSession.state hsame

end Vingilot.Pairing
