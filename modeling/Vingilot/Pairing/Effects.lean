import Vingilot.Pairing.Endpoints

/-!
# What a call does to a session

Each handler is refused and changes nothing, or ends the session, or takes its one step.
-/

namespace Vingilot.Pairing

open Program

variable {K : Type} {N : Nostr K} {s s' : PairingSession K} {now : Nat} {e : Event}

variable {state : SessionState} {role : Role} {message : PairingMessage} {nonce : Bytes} {ts : Nat}

namespace PairingSession

/-! ## Checks -/

theorem enter_ok (h : s.enter now state role = .ok ()) : s.state = state ∧ s.role = role := by
  obtain ⟨⟨⟩, -, h⟩ := exceptBind_ok.mp h
  obtain ⟨⟨⟩, hstate, hrole⟩ := exceptBind_ok.mp h
  unfold expectState at hstate
  unfold expectRole at hrole
  split_ifs at hstate with hs
  split_ifs at hrole with hr
  exact ⟨not_not.mp hs, not_not.mp hr⟩

/-- What a handler has checked when it goes on. -/
structure Received (N : Nostr K) (s : PairingSession K) (e : Event) (message : PairingMessage) :
    Prop where
  verified : N.verify e = true
  kind : e.kind = kindPairing
  tagged : s.hasPTag N e = true
  fromPeer : ∀ p, s.peerPubkey = some p → e.pubkey = p
  decrypted : s.decryptMessage N e = .ok message

theorem validateEventBasics_ok (h : s.validateEventBasics N e = .ok ()) :
    N.verify e = true ∧ e.kind = kindPairing ∧ s.hasPTag N e = true := by
  unfold validateEventBasics at h
  split_ifs at h with hverify hnew hkind htag
  exact ⟨by simpa using hverify, not_not.mp hkind, by simpa using htag⟩

theorem validateEventFromPeer_ok (h : s.validateEventFromPeer N e = .ok ()) :
    s.validateEventBasics N e = .ok () ∧ ∀ p, s.peerPubkey = some p → e.pubkey = p := by
  obtain ⟨⟨⟩, hbasics, h⟩ := exceptBind_ok.mp h
  refine ⟨hbasics, ?_⟩
  intro p hp
  rw [hp] at h
  simp only at h
  split_ifs at h with hpeer
  exact not_not.mp hpeer

theorem received_of_ok (hvalid : s.validateEventFromPeer N e = .ok ())
    (hmessage : s.decryptMessage N e = .ok message) : s.Received N e message := by
  obtain ⟨hbasics, hpeer⟩ := validateEventFromPeer_ok hvalid
  obtain ⟨hverify, hkind, htag⟩ := validateEventBasics_ok hbasics
  exact ⟨hverify, hkind, htag, hpeer, hmessage⟩

theorem receive_ok (h : s.receive N now state role e = .ok message) :
    s.state = state ∧ s.role = role ∧ s.Received N e message := by
  obtain ⟨⟨⟩, henter, h⟩ := exceptBind_ok.mp h
  obtain ⟨⟨⟩, hvalid, hmessage⟩ := exceptBind_ok.mp h
  obtain ⟨hstate, hrole⟩ := enter_ok henter
  exact ⟨hstate, hrole, received_of_ok hvalid hmessage⟩

theorem decryptMessage_ok (h : s.decryptMessage N e = .ok message) :
    ∃ shared decrypted, N.generateSharedKey s.keys e.pubkey = some shared ∧
      N.nip44Decrypt shared e.content = some decrypted ∧ N.fromJson decrypted = some message := by
  unfold decryptMessage at h
  simp only at h
  split_ifs at h
  split at h
  · cases h
  · next decrypted hdecrypted =>
    split_ifs at h
    split at h
    · cases h
    · next msg hmsg =>
      cases h
      obtain ⟨shared, hshared, hopen⟩ := Option.bind_eq_some_iff.mp hdecrypted
      exact ⟨shared, decrypted, hshared, hopen, hmsg⟩

/-! ## Sending and accepting -/

theorem buildEvent_ok (h : s.buildEvent N message nonce ts = .ok e) :
    ∃ peer shared content, s.peerPubkey = some peer ∧
      N.generateSharedKey s.keys peer = some shared ∧
      N.nip44Encrypt shared nonce (N.toJson message) = some content ∧
      N.sign s.keys ⟨N.publicKey s.keys, ts, kindPairing, [["p", peer.toHex]], content⟩ =
        some e := by
  unfold buildEvent at h
  split at h
  · cases h
  · next peer hpeer =>
    split at h
    · cases h
    · next content hcontent =>
      split at h
      · cases h
      · next e' hsign =>
        cases h
        obtain ⟨shared, hshared, hencrypt⟩ := Option.bind_eq_some_iff.mp hcontent
        exact ⟨peer, shared, content, hpeer, hshared, hencrypt, hsign⟩

theorem send_cases (N : Nostr K) (s : PairingSession K) (state : SessionState) (role : Role)
    (next : SessionState) (message : PairingMessage) (now : Nat) (nonce : Bytes) (ts : Nat) :
    (∃ err, s.send N state role next message now nonce ts = (.error err, s)) ∨
      ∃ e, s.state = state ∧ s.role = role ∧ s.buildEvent N message nonce ts = .ok e ∧
        s.send N state role next message now nonce ts = (.ok e, { s with state := next }) := by
  unfold send
  simp only
  split
  · exact .inl ⟨_, rfl⟩
  · next e hbuilt =>
    obtain ⟨⟨⟩, henter, hevent⟩ := exceptBind_ok.mp hbuilt
    obtain ⟨hstate, hrole⟩ := enter_ok henter
    exact .inr ⟨e, hstate, hrole, hevent, rfl⟩

theorem acceptPayload_cases (N : Nostr K) (s : PairingSession K) (role : Role) (now : Nat)
    (e : Event) :
    (∃ err, s.acceptPayload N role now e = (.error err, s)) ∨
      ∃ payloadType payload, s.state = .transferring ∧ s.role = role ∧
        s.Received N e (.payload payloadType payload) ∧ s.acceptPayload N role now e =
          (.ok (payloadType, payload), ({ s with state := .payloadExchanged }).recordEvent e) := by
  unfold acceptPayload
  split
  · exact .inl ⟨_, rfl⟩
  · next payloadType payload hreceived =>
    obtain ⟨hstate, hrole, hreceived⟩ := receive_ok hreceived
    exact .inr ⟨payloadType, payload, hstate, hrole, hreceived, rfl⟩
  · exact .inl ⟨_, rfl⟩

/-! ## The other handlers -/

theorem handleOffer_cases (N : Nostr K) (s : PairingSession K) (now : Nat) (e : Event) :
    (∃ err, s.handleOffer N now e = (.error err, s)) ∨
      ∃ code sasCode sasInput, s.state = .waiting ∧ s.role = .source ∧
        s.handleOffer N now e = (.ok code, { s with
          peerPubkey := some e.pubkey
          sasCode := some sasCode
          sasInput := some sasInput
          state := .confirming
          processedIds := e.id :: s.processedIds }) := by
  unfold handleOffer
  simp only
  split
  · exact .inl ⟨_, rfl⟩
  · next sessionId version hchecked =>
    split_ifs
    · exact .inl ⟨_, rfl⟩
    · exact .inl ⟨_, rfl⟩
    · obtain ⟨⟨⟩, henter, h⟩ := exceptBind_ok.mp hchecked
      obtain ⟨⟨⟩, -, hmessage⟩ := exceptBind_ok.mp h
      obtain ⟨hstate, hrole⟩ := enter_ok henter
      obtain ⟨shared, -, hshared, -⟩ := decryptMessage_ok hmessage
      rw [hshared]
      exact .inr ⟨_, _, _, hstate, hrole, rfl⟩
  · exact .inl ⟨_, rfl⟩

theorem confirmSas_cases (N : Nostr K) (s : PairingSession K) (now : Nat) (nonce : Bytes)
    (ts : Nat) : (∃ err, s.confirmSas N now nonce ts = (.error err, s)) ∨
      ∃ e transcriptHash, s.state = .confirming ∧ s.role = .source ∧
        s.buildEvent N (.sasConfirm transcriptHash) nonce ts = .ok e ∧
        s.confirmSas N now nonce ts = (.ok e, { s with state := .transferring }) := by
  unfold confirmSas
  simp only
  split
  · exact .inl ⟨_, rfl⟩
  · next e hbuilt =>
    obtain ⟨⟨⟩, henter, hbuilt⟩ := exceptBind_ok.mp hbuilt
    obtain ⟨hstate, hrole⟩ := enter_ok henter
    split at hbuilt
    · cases hbuilt
    · cases hbuilt
    · exact .inr ⟨e, _, hstate, hrole, hbuilt, rfl⟩

theorem handleComplete_cases (N : Nostr K) (s : PairingSession K) (now : Nat) (e : Event) :
    (∃ err, s.handleComplete N now e = (.error err, s)) ∨
      s.state = .payloadExchanged ∧
        (s.handleComplete N now e = (.ok (), ({ s with state := .completed }).recordEvent e) ∨
          ∃ err, s.handleComplete N now e = (.error err, { s with state := .aborted })) := by
  unfold handleComplete
  split
  · exact .inl ⟨_, rfl⟩
  · next hreceived => exact .inr ⟨(receive_ok hreceived).1, .inl rfl⟩
  · next hreceived => exact .inr ⟨(receive_ok hreceived).1, .inr ⟨_, rfl⟩⟩
  · exact .inl ⟨_, rfl⟩

theorem handleSasConfirm_cases (N : Nostr K) (s : PairingSession K) (now : Nat) (e : Event) :
    (∃ err, s.handleSasConfirm N now e = (.error err, s)) ∨
      s.state = .confirming ∧ s.role = .target ∧
        ((∃ err, s.handleSasConfirm N now e = (.error err, { s with state := .aborted })) ∨
          (s.sasCode = none ∧ ∃ err, s.handleSasConfirm N now e =
            (.error err, ({ s with state := .awaitingConfirmation }).recordEvent e)) ∨
          ∃ code, s.handleSasConfirm N now e =
            (.ok code, ({ s with state := .awaitingConfirmation }).recordEvent e)) := by
  unfold handleSasConfirm
  split
  · exact .inl ⟨_, rfl⟩
  · next receivedHash hreceived =>
    obtain ⟨hstate, hrole, -⟩ := receive_ok hreceived
    split
    · exact .inl ⟨_, rfl⟩
    · exact .inl ⟨_, rfl⟩
    · simp only
      split_ifs
      · exact .inr ⟨hstate, hrole, .inl ⟨_, rfl⟩⟩
      · split
        · next hcode => exact .inr ⟨hstate, hrole, .inr (.inl ⟨hcode, _, rfl⟩)⟩
        · exact .inr ⟨hstate, hrole, .inr (.inr ⟨_, rfl⟩)⟩
  · exact .inl ⟨_, rfl⟩

theorem confirmTargetSas_cases (s : PairingSession K) (now : Nat) :
    (∃ err, s.confirmTargetSas now = (.error err, s)) ∨
      s.state = .awaitingConfirmation ∧ s.role = .target ∧
        s.confirmTargetSas now = (.ok (), { s with state := .transferring }) := by
  unfold confirmTargetSas
  split
  · exact .inl ⟨_, rfl⟩
  · next henter =>
    obtain ⟨hstate, hrole⟩ := enter_ok henter
    exact .inr ⟨hstate, hrole, rfl⟩

theorem abort_cases (N : Nostr K) (s : PairingSession K) (reason : AbortReason) (nonce : Bytes)
    (ts : Nat) : (∃ err, s.abort N reason nonce ts = (.error err, s)) ∨
      s.isTerminal = false ∧ ∃ e?, (∀ e ∈ e?, s.buildEvent N (.abort reason) nonce ts = .ok e) ∧
        s.abort N reason nonce ts = (.ok e?, { s with state := .aborted }) := by
  unfold abort
  split_ifs with hover hpeer
  · exact .inl ⟨_, rfl⟩
  · exact .inr ⟨by simpa using hover, none, by simp, rfl⟩
  · split
    · exact .inl ⟨_, rfl⟩
    · next e hbuilt => exact .inr ⟨by simpa using hover, some e, by simpa using hbuilt, rfl⟩

theorem handleAbort_cases (N : Nostr K) (s : PairingSession K) (e : Event) :
    (∃ err, s.handleAbort N e = (.error err, s)) ∨
      s.isTerminal = false ∧ ∃ reason, s.handleAbort N e =
        (.ok reason, ({ s with state := .aborted }).recordEvent e) := by
  unfold handleAbort
  split_ifs with hover
  · exact .inl ⟨_, rfl⟩
  · exact .inl ⟨_, rfl⟩
  · simp only
    split
    · exact .inl ⟨_, rfl⟩
    · exact .inr ⟨by simpa using hover, _, rfl⟩
    · exact .inl ⟨_, rfl⟩

end PairingSession

/-! ## One inversion for all calls -/

/-- An event with this message, encrypted for the peer. -/
def Wrote (N : Nostr K) (s : PairingSession K) (u : Unsigned) (message : PairingMessage) : Prop :=
  ∃ peer shared nonce content ts, s.peerPubkey = some peer ∧
    N.generateSharedKey s.keys peer = some shared ∧
    N.nip44Encrypt shared nonce (N.toJson message) = some content ∧
    u = ⟨N.publicKey s.keys, ts, kindPairing, [["p", peer.toHex]], content⟩

theorem wrote_of_buildEvent (hN : N.Lawful) (h : s.buildEvent N message nonce ts = .ok e) :
    Wrote N s e.toUnsigned message := by
  obtain ⟨peer, shared, content, hpeer, hshared, hencrypt, hsign⟩ := PairingSession.buildEvent_ok h
  exact ⟨peer, shared, nonce, content, ts, hpeer, hshared, hencrypt,
    hN.sign_toUnsigned _ _ _ hsign⟩

def Call.isStep : Call → Bool
  | .confirmSas .. | .handleSasConfirm _ | .confirmTargetSas | .sendPayload .. => true
  | _ => false

/-- Refused, failed, or the one step of the call. -/
inductive Effect (N : Nostr K) (s : PairingSession K) :
    Call → Option Reply → PairingSession K → Prop
  | refused (c : Call) : Effect N s c none s
  | failed (c : Call) (hopen : s.isTerminal = false) :
      Effect N s c none { s with state := .aborted }
  | uncoded {c : Call} {processedIds : List Bytes} (hrole : s.role = .target)
      (hcode : s.sasCode = none) :
      Effect N s c none { s with state := .awaitingConfirmation, processedIds }
  | offered {e : Event} {code : String} {sasCode : Nat} {sasInput : Bytes}
      {processedIds : List Bytes} (hstate : s.state = .waiting) (hrole : s.role = .source) :
      Effect N s (.handleOffer e) (some (.sas code)) { s with
        peerPubkey := some e.pubkey
        sasCode := some sasCode
        sasInput := some sasInput
        state := .confirming
        processedIds }
  | confirmed {e : Event} {transcriptHash : String} {nonce : Bytes} {ts : Nat}
      (hstate : s.state = .confirming) (hrole : s.role = .source)
      (hwrote : Wrote N s e.toUnsigned (.sasConfirm transcriptHash)) :
      Effect N s (.confirmSas nonce ts) (some (.event e)) { s with state := .transferring }
  | checked {e : Event} {code : String} {processedIds : List Bytes}
      (hstate : s.state = .confirming) (hrole : s.role = .target) :
      Effect N s (.handleSasConfirm e) (some (.sas code))
        { s with state := .awaitingConfirmation, processedIds }
  | approved (hstate : s.state = .awaitingConfirmation) (hrole : s.role = .target) :
      Effect N s .confirmTargetSas (some .done) { s with state := .transferring }
  | sent {e : Event} {payloadType : PayloadType} {payload : String} {nonce : Bytes} {ts : Nat}
      (hstate : s.state = .transferring) (hrole : s.role = .source)
      (hwrote : Wrote N s e.toUnsigned (.payload payloadType payload)) :
      Effect N s (.sendPayload payloadType payload nonce ts) (some (.event e))
        { s with state := .payloadExchanged }
  | accepted {c : Call} {e : Event} {x : PayloadType × String} {processedIds : List Bytes}
      (hcall : s.role = .target ∧ c = .handlePayload e ∨
        s.role = .source ∧ c = .handleReturnPayload e)
      (hstate : s.state = .transferring) (hreceived : s.Received N e (.payload x.1 x.2)) :
      Effect N s c (some (.payload x)) { s with state := .payloadExchanged, processedIds }
  | ended {c : Call} {reply : Reply} {next : SessionState} {processedIds : List Bytes}
      (hopen : s.isTerminal = false) (hnext : next = .completed ∨ next = .aborted)
      (hcall : c.isStep = false) (haccepts : reply.accepts = [])
      (hwrote : ∀ u ∈ reply.signs, ∃ message, Wrote N s u message ∧
        ∀ payloadType payload, message ≠ .payload payloadType payload) :
      Effect N s c (some reply) { s with state := next, processedIds }

theorem isTerminal_of_state (h : s.state = state) (hopen : state ≠ .completed ∧ state ≠ .aborted) :
    s.isTerminal = false := by
  simp [PairingSession.isTerminal, h, hopen.1, hopen.2]

theorem effect_send (hN : N.Lawful) {c : Call} {next : SessionState}
    (hopen : state ≠ .completed ∧ state ≠ .aborted) (hnext : next = .completed ∨ next = .aborted)
    (hcall : c.isStep = false)
    (hmessage : ∀ payloadType payload, message ≠ .payload payloadType payload) :
    Effect N s c ((s.send N state role next message now nonce ts).1.toOption.map .event)
      (s.send N state role next message now nonce ts).2 := by
  rcases s.send_cases N state role next message now nonce ts with
    ⟨err, h⟩ | ⟨e, hstate, -, hbuilt, h⟩
  · rw [h]
    exact .refused c
  · rw [h]
    refine .ended (isTerminal_of_state hstate hopen) hnext hcall rfl ?_
    intro u hu
    cases List.mem_singleton.mp hu
    exact ⟨message, wrote_of_buildEvent hN hbuilt, hmessage⟩

theorem effect_accept {c : Call}
    (hcall : role = .target ∧ c = .handlePayload e ∨ role = .source ∧ c = .handleReturnPayload e) :
    Effect N s c ((s.acceptPayload N role now e).1.toOption.map .payload)
      (s.acceptPayload N role now e).2 := by
  rcases s.acceptPayload_cases N role now e with
    ⟨err, h⟩ | ⟨payloadType, payload, hstate, rfl, hreceived, h⟩
  · rw [h]
    exact .refused c
  · rw [h]
    exact .accepted hcall hstate hreceived

theorem toOption_map {ε α β : Type*} (x : Except ε α) (f : α → β) :
    (x.map f).toOption = x.toOption.map f := by
  cases x <;> rfl

theorem effect_of_call (hN : N.Lawful) (s : PairingSession K) (now : Nat) (c : Call) :
    Effect N s c (s.call N now c).1.toOption (s.call N now c).2 := by
  cases c with
  | handleOffer e =>
    simp only [PairingSession.call, Prod.map, toOption_map, id]
    rcases s.handleOffer_cases N now e with ⟨err, h⟩ | ⟨code, sasCode, sasInput, hstate, hrole, h⟩
    · rw [h]
      exact .refused _
    · rw [h]
      exact .offered hstate hrole
  | confirmSas nonce ts =>
    simp only [PairingSession.call, Prod.map, toOption_map, id]
    rcases s.confirmSas_cases N now nonce ts with
      ⟨err, h⟩ | ⟨e, transcriptHash, hstate, hrole, hbuilt, h⟩
    · rw [h]
      exact .refused _
    · rw [h]
      exact .confirmed hstate hrole (wrote_of_buildEvent hN hbuilt)
  | handleReturnPayload e =>
    simp only [PairingSession.call, Prod.map, toOption_map, id]
    exact effect_accept (.inr ⟨rfl, rfl⟩)
  | sendSourceComplete success nonce ts =>
    simp only [PairingSession.call, Prod.map, toOption_map, id]
    refine effect_send hN (by decide) ?_ rfl (by simp)
    cases success <;> simp
  | sendPayload payloadType payload nonce ts =>
    simp only [PairingSession.call, Prod.map, toOption_map, id, PairingSession.sendPayload]
    rcases s.send_cases N .transferring .source .payloadExchanged (.payload payloadType payload)
      now nonce ts with ⟨err, h⟩ | ⟨e, hstate, hrole, hbuilt, h⟩
    · rw [h]
      exact .refused _
    · rw [h]
      exact .sent hstate hrole (wrote_of_buildEvent hN hbuilt)
  | handleComplete e =>
    simp only [PairingSession.call, Prod.map, toOption_map, id]
    rcases s.handleComplete_cases N now e with ⟨err, h⟩ | ⟨hstate, h | ⟨err, h⟩⟩
    · rw [h]
      exact .refused _
    · rw [h]
      exact .ended (isTerminal_of_state hstate (by decide)) (.inl rfl) rfl rfl (by simp [Reply.signs])
    · rw [h]
      exact .failed _ (isTerminal_of_state hstate (by decide))
  | handleSasConfirm e =>
    simp only [PairingSession.call, Prod.map, toOption_map, id]
    rcases s.handleSasConfirm_cases N now e with
      ⟨err, h⟩ | ⟨hstate, hrole, ⟨err, h⟩ | ⟨hcode, err, h⟩ | ⟨code, h⟩⟩
    · rw [h]
      exact .refused _
    · rw [h]
      exact .failed _ (isTerminal_of_state hstate (by decide))
    · rw [h]
      exact .uncoded hrole hcode
    · rw [h]
      exact .checked hstate hrole
  | confirmTargetSas =>
    simp only [PairingSession.call, Prod.map, toOption_map, id]
    rcases s.confirmTargetSas_cases now with ⟨err, h⟩ | ⟨hstate, hrole, h⟩
    · rw [h]
      exact .refused _
    · rw [h]
      exact .approved hstate hrole
  | handlePayload e =>
    simp only [PairingSession.call, Prod.map, toOption_map, id]
    exact effect_accept (.inl ⟨rfl, rfl⟩)
  | sendComplete nonce ts =>
    simp only [PairingSession.call, Prod.map, toOption_map, id]
    exact effect_send hN (by decide) (.inl rfl) rfl (by simp)
  | abort reason nonce ts =>
    simp only [PairingSession.call, Prod.map, toOption_map, id]
    rcases s.abort_cases N reason nonce ts with ⟨err, h⟩ | ⟨hopen, e?, hbuilt, h⟩
    · rw [h]
      exact .refused _
    · rw [h]
      refine .ended hopen (.inr rfl) rfl ?_ ?_
      · cases e? <;> rfl
      · intro u hu
        cases e? with
        | none => cases hu
        | some e =>
          cases List.mem_singleton.mp hu
          exact ⟨_, wrote_of_buildEvent hN (hbuilt e rfl), by simp⟩
  | handleAbort e =>
    simp only [PairingSession.call, Prod.map, toOption_map, id]
    rcases s.handleAbort_cases N e with ⟨err, h⟩ | ⟨hopen, reason, h⟩
    · rw [h]
      exact .refused _
    · rw [h]
      exact .ended hopen (.inr rfl) rfl rfl (by simp [Reply.signs])

end Vingilot.Pairing
