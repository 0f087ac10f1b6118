import Vingilot.Pairing.Atomic
import Vingilot.Tunnel.Fencing

/-!
# Agreement on the payload

What an endpoint has done fits the state of its session. Only the session itself signs with its key,
and it encrypts to its peer, so a payload that a target takes from the source of its code was sent to
this target.
-/

namespace Vingilot.Pairing

open Machine

variable {K : Type} {N : Nostr K}

theorem PublicKey.toHex_injective : Function.Injective PublicKey.toHex := by
  rintro ⟨bytes, hbytes⟩ ⟨bytes', hbytes'⟩ h
  have hchars := String.ofList_injective h
  have hdecoded := congrArg Tunnel.hexDecode hchars
  rw [Tunnel.hexDecode_hexEncode, Tunnel.hexDecode_hexEncode] at hdecoded
  cases hdecoded
  rfl

/-! ## One endpoint -/

def SessionState.early : SessionState → Bool
  | waiting | confirming | awaitingConfirmation | transferring => true
  | payloadExchanged | completed | aborted => false

variable {x' : Endpoint K} {u : Unsigned} {e : Event}

namespace Endpoint

structure Sound (x : Endpoint K) : Prop where
  source : x.session.role = .source → x.session.state = .waiting → x.session.peerPubkey = none
  target : x.session.role = .target → x.session.sasCode.isSome = true ∧
    ∃ qr, x.qr = some qr ∧ x.session.peerPubkey = some qr.sourcePubkey
  early : x.session.state.early = true → x.sent = [] ∧ x.accepted = []
  awaiting : x.session.state = .awaitingConfirmation → x.checked = true
  ready : x.session.state = .transferring →
    (x.session.role = .source → x.confirmed = true) ∧
      (x.session.role = .target → x.approved = true)
  approved : x.approved = true → x.checked = true
  once : x.sent.length + x.accepted.length ≤ 1
  sent : x.sent ≠ [] → x.session.role = .source ∧ x.confirmed = true
  accepted : x.accepted ≠ [] → x.session.role = .target → x.approved = true

structure Later (x x' : Endpoint K) : Prop where
  keys : x'.session.keys = x.session.keys
  role : x'.session.role = x.session.role
  qr : x'.qr = x.qr
  peer : ∀ p, x.session.peerPubkey = some p → x'.session.peerPubkey = some p
  sent : x.sent ⊆ x'.sent
  ended : x.session.isTerminal = true → x'.session = x.session

theorem Later.refl (x : Endpoint K) : Later x x :=
  ⟨rfl, rfl, rfl, fun _ hp => hp, fun _ hy => hy, fun _ => rfl⟩

/-- A payload goes out once and after the confirmation, and one comes in once and after the check and
the approval. -/
structure Moved (N : Nostr K) (x : Endpoint K) (c : Call) (x' : Endpoint K) : Prop where
  sent : x'.sent = x.sent ∨ ∃ y, x.sent = [] ∧ x'.sent = [y] ∧ x.confirmed = true
  accepted : x'.accepted = x.accepted ∨ ∃ y e, c.event? = some e ∧
    x.session.Received N e (.payload y.1 y.2) ∧ x.accepted = [] ∧ x'.accepted = [y] ∧
    (x.session.role = .target → x.checked = true ∧ x.approved = true)

variable {x : Endpoint K} {c : Call} {reply : Option Reply} {s : PairingSession K}

@[simp]
theorem after_session : (x.after c reply s).session = s := by
  cases reply <;> rfl

@[simp]
theorem after_qr : (x.after c reply s).qr = x.qr := by
  cases reply <;> rfl

theorem after_of_not_isStep (hcall : c.isStep = false) {reply : Reply} (haccepts : reply.accepts = []) :
    x.after c (some reply) s = { x with session := s } := by
  have hnothing : c.isConfirmSas = false ∧ c.isTranscriptCheck = false ∧ c ≠ .confirmTargetSas ∧
      c.sends = [] := by
    cases c <;> simp_all [Call.isStep, Call.isConfirmSas, Call.isTranscriptCheck, Call.sends]
  obtain ⟨hconfirm, hcheck, happrove, hsends⟩ := hnothing
  simp [after, hconfirm, hcheck, happrove, hsends, haccepts]

theorem later_of_open (hopen : x.session.isTerminal = false) (hkeys : s.keys = x.session.keys)
    (hrole : s.role = x.session.role)
    (hpeer : ∀ p, x.session.peerPubkey = some p → s.peerPubkey = some p) :
    Later x (x.after c reply s) where
  keys := by rw [after_session, hkeys]
  role := by rw [after_session, hrole]
  qr := after_qr
  peer := by rwa [after_session]
  sent := by cases reply <;> simp [after]
  ended hover := by
    rw [hopen] at hover
    cases hover

theorem later_after (hx : x.Sound) (h : Effect N x.session c reply s) :
    Later x (x.after c reply s) := by
  cases h with
  | refused => exact .refl x
  | failed _ hopen => exact later_of_open hopen rfl rfl fun _ hp => hp
  | uncoded hrole hcode =>
    have hsome := (hx.target hrole).1
    rw [hcode] at hsome
    cases hsome
  | offered hstate hrole =>
    refine later_of_open (isTerminal_of_state hstate (by decide)) rfl rfl fun p hp => ?_
    rw [hx.source hrole hstate] at hp
    cases hp
  | confirmed hstate | checked hstate | approved hstate | sent hstate =>
    exact later_of_open (isTerminal_of_state hstate (by decide)) rfl rfl fun _ hp => hp
  | accepted _ hstate =>
    exact later_of_open (isTerminal_of_state hstate (by decide)) rfl rfl fun _ hp => hp
  | ended hopen => exact later_of_open hopen rfl rfl fun _ hp => hp

theorem sound_of_late (hx : x.Sound) (hsession : x.session.role = s.role)
    (hstate : s.state.early = false)
    (htarget : s.role = .target → s.sasCode = x.session.sasCode ∧
      s.peerPubkey = x.session.peerPubkey) :
    ({ x with session := s } : Endpoint K).Sound where
  source _ hwaiting := by
    simp only at hwaiting
    rw [hwaiting] at hstate
    cases hstate
  target hrole := by
    obtain ⟨hcode, hpeer⟩ := htarget hrole
    have hold := hx.target (hsession.trans hrole)
    rw [← hcode, ← hpeer] at hold
    exact hold
  early hearly := by
    rw [hstate] at hearly
    cases hearly
  awaiting hawaiting := by
    simp only at hawaiting
    rw [hawaiting] at hstate
    cases hstate
  ready htransferring := by
    simp only at htransferring
    rw [htransferring] at hstate
    cases hstate
  approved := hx.approved
  once := hx.once
  sent hne := ⟨hsession ▸ (hx.sent hne).1, (hx.sent hne).2⟩
  accepted hne hrole := hx.accepted hne (hsession.trans hrole)

theorem sound_of_early {x : Endpoint K} (hnone : x.sent = [] ∧ x.accepted = [])
    (hsource : x.session.role = .source → x.session.state = .waiting →
      x.session.peerPubkey = none)
    (htarget : x.session.role = .target → x.session.sasCode.isSome = true ∧
      ∃ qr, x.qr = some qr ∧ x.session.peerPubkey = some qr.sourcePubkey)
    (hawaiting : x.session.state = .awaitingConfirmation → x.checked = true)
    (hready : x.session.state = .transferring →
      (x.session.role = .source → x.confirmed = true) ∧
        (x.session.role = .target → x.approved = true))
    (happroved : x.approved = true → x.checked = true) : x.Sound where
  source := hsource
  target := htarget
  early _ := hnone
  awaiting := hawaiting
  ready := hready
  approved := happroved
  once := by rw [hnone.1, hnone.2]; exact Nat.zero_le 1
  sent hne := absurd hnone.1 hne
  accepted hne := absurd hnone.2 hne

theorem Sound.nothing (hx : x.Sound) {state : SessionState} (hstate : x.session.state = state)
    (hearly : state.early = true) : x.sent = [] ∧ x.accepted = [] :=
  hx.early (hstate ▸ hearly)

theorem sound_after (hx : x.Sound) (h : Effect N x.session c reply s) :
    (x.after c reply s).Sound := by
  cases h with
  | refused => exact hx
  | failed _ hopen => exact sound_of_late hx rfl rfl fun _ => ⟨rfl, rfl⟩
  | uncoded hrole hcode =>
    have hsome := (hx.target hrole).1
    rw [hcode] at hsome
    cases hsome
  | offered hstate hrole =>
    obtain ⟨hsent, haccepted⟩ := hx.nothing hstate rfl
    refine sound_of_early (by simp [after, Call.sends, Reply.accepts, hsent, haccepted])
      (by simp [after]) ?_ (by simp [after]) (by simp [after]) ?_
    · intro htarget
      cases hrole.symm.trans htarget
    · simpa [after, Call.isTranscriptCheck] using hx.approved
  | confirmed hstate hrole =>
    obtain ⟨hsent, haccepted⟩ := hx.nothing hstate rfl
    refine sound_of_early (by simp [after, Call.sends, Reply.accepts, hsent, haccepted])
      (by simp [after]) hx.target (by simp [after]) ?_ ?_
    · refine fun _ => ⟨fun _ => by simp [after, Call.isConfirmSas], fun htarget => ?_⟩
      cases hrole.symm.trans htarget
    · simpa [after, Call.isTranscriptCheck] using hx.approved
  | checked hstate hrole =>
    obtain ⟨hsent, haccepted⟩ := hx.nothing hstate rfl
    exact sound_of_early (by simp [after, Call.sends, Reply.accepts, hsent, haccepted])
      (by simp [after]) hx.target (by simp [after, Call.isTranscriptCheck]) (by simp [after])
      (by simp [after, Call.isTranscriptCheck])
  | approved hstate hrole =>
    obtain ⟨hsent, haccepted⟩ := hx.nothing hstate rfl
    have hchecked := hx.awaiting hstate
    refine sound_of_early (by simp [after, Call.sends, Reply.accepts, hsent, haccepted])
      (by simp [after]) hx.target (by simp [after]) ?_ (by simp [after, hchecked])
    refine fun _ => ⟨fun hsource => ?_, fun _ => by simp [after]⟩
    cases hrole.symm.trans hsource
  | sent hstate hrole =>
    obtain ⟨hsent, haccepted⟩ := hx.nothing hstate rfl
    have hconfirmed := (hx.ready hstate).1 hrole
    refine ⟨by simp [after], hx.target, by simp [after, SessionState.early], by simp [after],
      by simp [after], ?_, ?_, ?_, ?_⟩
    · simpa [after, Call.isTranscriptCheck] using hx.approved
    · simp [after, Call.sends, Reply.accepts, hsent, haccepted]
    · exact fun _ => ⟨hrole, by simp [after, hconfirmed]⟩
    · simp [after, Reply.accepts, haccepted]
  | accepted hcall hstate =>
    obtain ⟨hsent, haccepted⟩ := hx.nothing hstate rfl
    have hsends : c.sends = [] := by
      rcases hcall with ⟨-, rfl⟩ | ⟨-, rfl⟩ <;> rfl
    refine ⟨by simp [after], hx.target, by simp [after, SessionState.early], by simp [after],
      by simp [after], ?_, ?_, ?_, ?_⟩
    · rcases hcall with ⟨-, rfl⟩ | ⟨-, rfl⟩ <;>
        simpa [after, Call.isTranscriptCheck] using hx.approved
    · simp [after, hsends, Reply.accepts, hsent, haccepted]
    · simp [after, hsends, hsent]
    · intro _ htarget
      simp [after, (hx.ready hstate).2 htarget]
  | ended hopen hnext hcall haccepts =>
    rw [after_of_not_isStep hcall haccepts]
    refine sound_of_late hx rfl ?_ fun _ => ⟨rfl, rfl⟩
    rcases hnext with rfl | rfl <;> rfl

theorem moved_after (hx : x.Sound) (h : Effect N x.session c reply s) :
    Moved N x c (x.after c reply s) := by
  cases h with
  | refused | failed | uncoded => exact ⟨.inl rfl, .inl rfl⟩
  | offered | confirmed | checked | approved =>
    exact ⟨.inl (List.append_nil _), .inl (List.append_nil _)⟩
  | @sent _ payloadType payload _ _ hstate hrole =>
    obtain ⟨hsent, -⟩ := hx.nothing hstate rfl
    refine ⟨.inr ⟨(payloadType, payload), hsent, ?_, (hx.ready hstate).1 hrole⟩,
      .inl (List.append_nil _)⟩
    simp [after, Call.sends, hsent]
  | @accepted _ e y _ hcall hstate hreceived =>
    obtain ⟨-, haccepted⟩ := hx.nothing hstate rfl
    have hcalled : c.sends = [] ∧ c.event? = some e := by
      rcases hcall with ⟨-, rfl⟩ | ⟨-, rfl⟩ <;> exact ⟨rfl, rfl⟩
    refine ⟨.inl (by simp [after, hcalled.1]),
      .inr ⟨y, e, hcalled.2, hreceived, haccepted, by simp [after, Reply.accepts, haccepted], ?_⟩⟩
    intro htarget
    have happroved := (hx.ready hstate).2 htarget
    exact ⟨hx.approved happroved, happroved⟩
  | ended hopen hnext hcall haccepts =>
    rw [after_of_not_isStep hcall haccepts]
    exact ⟨.inl rfl, .inl rfl⟩

/-! ## What an endpoint signs -/

def Signed (N : Nostr K) (x : Endpoint K) (u : Unsigned) : Prop :=
  ∃ message, Wrote N x.session u message ∧
    ∀ payloadType payload, message = .payload payloadType payload → (payloadType, payload) ∈ x.sent

theorem Later.wrote {x : Endpoint K} (h : Later x x') {message : PairingMessage}
    (hwrote : Wrote N x.session u message) : Wrote N x'.session u message := by
  obtain ⟨peer, shared, nonce, content, ts, hpeer, hshared, hencrypt, hu⟩ := hwrote
  rw [← h.keys] at hshared hu
  exact ⟨peer, shared, nonce, content, ts, h.peer peer hpeer, hshared, hencrypt, hu⟩

theorem Later.signed {x : Endpoint K} (h : Later x x') (hsigned : x.Signed N u) :
    x'.Signed N u := by
  obtain ⟨message, hwrote, hsent⟩ := hsigned
  exact ⟨message, h.wrote hwrote, fun _ _ heq => h.sent (hsent _ _ heq)⟩

theorem Later.publicKey_eq {x : Endpoint K} (h : Later x x') : x'.publicKey N = x.publicKey N :=
  congrArg N.publicKey h.keys

theorem Signed.pubkey (h : x.Signed N u) : u.pubkey = x.publicKey N := by
  obtain ⟨_, ⟨_, _, _, _, _, _, _, _, rfl⟩, _⟩ := h
  rfl

theorem signed_after (hx : x.Sound) (h : Effect N x.session c reply s) :
    ∀ u ∈ reply.elim [] Reply.signs, (x.after c reply s).Signed N u := by
  have hlater := later_after hx h
  intro u hu
  cases h with
  | refused | failed | uncoded | offered | checked | approved | accepted => cases hu
  | confirmed _ _ hwrote =>
    obtain rfl := List.mem_singleton.mp hu
    exact ⟨_, hlater.wrote hwrote, nofun⟩
  | sent _ _ hwrote =>
    obtain rfl := List.mem_singleton.mp hu
    refine ⟨_, hlater.wrote hwrote, ?_⟩
    rintro _ _ ⟨⟩
    simp [after, Call.sends]
  | ended _ _ _ _ hwrote =>
    obtain ⟨message, hmessage, hother⟩ := hwrote u hu
    exact ⟨message, hlater.wrote hmessage, fun _ _ heq => absurd heq (hother _ _)⟩

/-! ## New endpoints -/

theorem sound_newSource (N : Nostr K) (keys : K) (sessionSecret : Bytes) (relayUrl : String)
    (now : Nat) :
    (Endpoint.new (PairingSession.newSource N keys sessionSecret relayUrl now).1 none).Sound :=
  sound_of_early ⟨rfl, rfl⟩ (fun _ _ => rfl) nofun nofun nofun nofun

theorem newTarget_ok {qr : QrPayload} {keys : K} {now : Nat} {nonce : Bytes} {ts : Nat}
    (h : PairingSession.newTarget N qr keys now nonce ts = .ok (s, e)) :
    s.role = .target ∧ s.state = .confirming ∧ s.keys = keys ∧
      s.peerPubkey = some qr.sourcePubkey ∧ s.sasCode.isSome = true ∧
      ∃ before : PairingSession K, before.keys = s.keys ∧ before.peerPubkey = s.peerPubkey ∧
        before.buildEvent N (.offer (String.ofList
          (Tunnel.hexEncode (deriveSessionId N qr.sessionSecret))) 1) nonce ts = .ok e := by
  unfold PairingSession.newTarget at h
  simp only at h
  split at h
  · cases h
  · split at h
    · cases h
    · next hbuilt =>
      cases h
      exact ⟨rfl, rfl, rfl, rfl, rfl, _, rfl, rfl, hbuilt⟩

theorem newTarget_endpoint (hN : N.Lawful) {qr : QrPayload} {keys : K} {now : Nat} {nonce : Bytes}
    {ts : Nat} (h : PairingSession.newTarget N qr keys now nonce ts = .ok (s, e)) :
    (Endpoint.new s (some qr)).Sound ∧
      (Endpoint.new s (some qr)).Signed N e.toUnsigned ∧ s.keys = keys := by
  obtain ⟨hrole, hstate, hkeys, hpeer, hcode, before, hsame, hpeers, hbuilt⟩ := newTarget_ok h
  refine ⟨sound_of_early ⟨rfl, rfl⟩ ?_ (fun _ => ⟨hcode, qr, rfl, hpeer⟩) ?_ ?_ nofun, ?_, hkeys⟩
  · intro hsource
    cases hrole.symm.trans hsource
  · intro hawaiting
    cases hstate.symm.trans hawaiting
  · intro hready
    cases hstate.symm.trans hready
  · obtain ⟨peer, shared, nonce, content, ts, hp, hshared, hencrypt, hu⟩ :=
      wrote_of_buildEvent hN hbuilt
    rw [hsame] at hshared hu
    rw [hpeers] at hp
    exact ⟨_, ⟨peer, shared, nonce, content, ts, hp, hshared, hencrypt, hu⟩, nofun⟩

end Endpoint

/-! ## All endpoints -/

variable {i : Nat}

namespace Pairings

structure Honest (N : Nostr K) (w : Pairings K) : Prop where
  sound : ∀ i x, w.endpoints.get? i = some x → x.Sound
  distinct : ∀ i j x y, w.endpoints.get? i = some x → w.endpoints.get? j = some y →
    x.publicKey N = y.publicKey N → i = j
  owned : ∀ u ∈ w.signed, ∃ i x, w.endpoints.get? i = some x ∧ u.pubkey = x.publicKey N
  signed : ∀ u ∈ w.signed, u.kind = kindPairing → ∀ i x, w.endpoints.get? i = some x →
    u.pubkey = x.publicKey N → x.Signed N u

variable {w w' : Pairings K}

theorem honest_init : Honest N (init : Pairings K) where
  sound _ _ h := by cases h
  distinct _ _ _ _ h := by cases h
  owned _ h := by cases h
  signed _ h := by cases h

theorem Honest.add (h : w.Honest N) {x : Endpoint K} (hfree : w.endpoints.get? i = none)
    (hx : x.Sound) (hfresh : w.Fresh N (x.publicKey N)) {us : List Unsigned}
    (hus : ∀ u ∈ us, x.Signed N u) : Honest N ⟨w.endpoints.set i x, w.signed ++ us⟩ := by
  have hold : ∀ {j y}, (w.endpoints.set i x).get? j = some y →
      (j = i ∧ y = x) ∨ (j ≠ i ∧ w.endpoints.get? j = some y) := by
    intro j y hy
    rw [Table.get?_set] at hy
    split_ifs at hy with hj
    · cases hy
      exact .inl ⟨hj, rfl⟩
    · exact .inr ⟨hj, hy⟩
  refine ⟨fun j y hy => ?_, fun j k y z hy hz hkeys => ?_, fun u hu => ?_,
    fun u hu hkind j y hy hkey => ?_⟩
  · rcases hold hy with ⟨-, rfl⟩ | ⟨-, hy'⟩
    · exact hx
    · exact h.sound j y hy'
  · rcases hold hy with ⟨rfl, rfl⟩ | ⟨-, hy'⟩
    · rcases hold hz with ⟨rfl, -⟩ | ⟨-, hz'⟩
      · rfl
      · exact absurd hkeys.symm (hfresh k z hz').1
    · rcases hold hz with ⟨rfl, rfl⟩ | ⟨-, hz'⟩
      · exact absurd hkeys (hfresh j y hy').1
      · exact h.distinct j k y z hy' hz' hkeys
  · rcases List.mem_append.mp hu with hu' | hu'
    · obtain ⟨j, y, hy, hkey⟩ := h.owned u hu'
      refine ⟨j, y, ?_, hkey⟩
      rw [Table.get?_set, if_neg, hy]
      rintro rfl
      rw [hfree] at hy
      cases hy
    · exact ⟨i, x, by rw [Table.get?_set, if_pos rfl], (hus u hu').pubkey⟩
  · rcases List.mem_append.mp hu with hu' | hu'
    · rcases hold hy with ⟨-, rfl⟩ | ⟨-, hy'⟩
      · obtain ⟨k, z, hz, hown⟩ := h.owned u hu'
        exact absurd (hown.symm.trans hkey) (hfresh k z hz).1
      · exact h.signed u hu' hkind j y hy' hkey
    · rcases hold hy with ⟨-, rfl⟩ | ⟨-, hy'⟩
      · exact hus u hu'
      · exact absurd (hkey.symm.trans (hus u hu').pubkey) (hfresh j y hy').1

theorem Honest.update (h : w.Honest N) {x : Endpoint K} (hget : w.endpoints.get? i = some x)
    (hlater : x.Later x') (hx' : x'.Sound) {endpoints : Table Nat (Endpoint K)}
    (hset : ∀ j, endpoints.get? j = if j = i then some x' else w.endpoints.get? j)
    {us : List Unsigned}
    (hus : ∀ u ∈ us, u.pubkey = x.publicKey N ∧ (u.kind = kindPairing → x'.Signed N u)) :
    Honest N ⟨endpoints, w.signed ++ us⟩ := by
  have hold : ∀ {j y}, endpoints.get? j = some y → ∃ y', w.endpoints.get? j = some y' ∧
      y.publicKey N = y'.publicKey N ∧ y'.Later y ∧ (j = i ∧ y = x' ∨ y = y') := by
    intro j y hy
    rw [hset] at hy
    split_ifs at hy with hj
    · cases hy
      subst hj
      exact ⟨x, hget, hlater.publicKey_eq, hlater, .inl ⟨rfl, rfl⟩⟩
    · exact ⟨y, hy, rfl, .refl y, .inr rfl⟩
  have hnew : ∀ {j y}, w.endpoints.get? j = some y → ∃ y', endpoints.get? j = some y' ∧
      y'.publicKey N = y.publicKey N := by
    intro j y hy
    rw [hset]
    split_ifs with hj
    · subst hj
      cases hget.symm.trans hy
      exact ⟨x', rfl, hlater.publicKey_eq⟩
    · exact ⟨y, hy, rfl⟩
  refine ⟨fun j y hy => ?_, fun j k y z hy hz hkeys => ?_, fun u hu => ?_,
    fun u hu hkind j y hy hkey => ?_⟩
  · obtain ⟨y', hy', -, -, ⟨-, rfl⟩ | rfl⟩ := hold hy
    · exact hx'
    · exact h.sound j y hy'
  · obtain ⟨y', hy', hykey, -⟩ := hold hy
    obtain ⟨z', hz', hzkey, -⟩ := hold hz
    exact h.distinct j k y' z' hy' hz' (by rw [← hykey, ← hzkey, hkeys])
  · rcases List.mem_append.mp hu with hu | hu
    · obtain ⟨j, y, hy, hown⟩ := h.owned u hu
      obtain ⟨y', hy', hsame⟩ := hnew hy
      exact ⟨j, y', hy', hown.trans hsame.symm⟩
    · obtain ⟨x'', hx'', hsame⟩ := hnew hget
      exact ⟨i, x'', hx'', (hus u hu).1.trans hsame.symm⟩
  · obtain ⟨y', hy', hykey, hylater, hsame⟩ := hold hy
    rcases List.mem_append.mp hu with hu | hu
    · exact hylater.signed (h.signed u hu hkind j y' hy' (hkey.trans hykey))
    · obtain rfl : j = i :=
        h.distinct j i y' x hy' hget (by rw [← hykey, ← hkey, (hus u hu).1])
      rw [hset, if_pos rfl] at hy
      cases hy
      exact (hus u hu).2 hkind

theorem Honest.call (hN : N.Lawful) (h : w.Honest N) {x : Endpoint K}
    (hget : w.endpoints.get? i = some x) (now : Nat) (c : Call) :
    let result := x.session.call N now c
    Honest N ⟨w.endpoints.set i (x.after c result.1.toOption result.2),
      w.signed ++ result.1.toOption.elim [] Reply.signs⟩ := by
  have hx := h.sound i x hget
  have heffect := effect_of_call hN x.session now c
  have hlater := Endpoint.later_after hx heffect
  refine h.update hget hlater (Endpoint.sound_after hx heffect) (fun j => Table.get?_set ..) ?_
  intro u hu
  have hsigned := Endpoint.signed_after hx heffect u hu
  exact ⟨hsigned.pubkey.trans hlater.publicKey_eq, fun _ => hsigned⟩

theorem honest_step (hN : N.Lawful) {a : PairAction K} (h : w.Honest N) (hideal : Ideal N w a)
    (hstep : pairStep N w a = some w') : w'.Honest N := by
  cases a with
  | newSource i keys sessionSecret relayUrl now =>
    simp only [pairStep] at hstep
    split at hstep
    · cases hstep
    · next hfree =>
      cases hstep
      have hadd := h.add hfree (Endpoint.sound_newSource N keys sessionSecret relayUrl now) hideal
        (List.forall_mem_nil _)
      rwa [List.append_nil] at hadd
  | newTarget i qr keys now nonce ts =>
    simp only [pairStep] at hstep
    split at hstep
    · next s e hfree hnew =>
      cases hstep
      obtain ⟨hsound, hsigned, hkeys⟩ := Endpoint.newTarget_endpoint hN hnew
      refine h.add hfree hsound ?_ fun u hu => ?_
      · show w.Fresh N (N.publicKey s.keys)
        rw [hkeys]
        exact hideal
      · rw [List.mem_singleton.mp hu]
        exact hsigned
    · cases hstep
  | call i now c =>
    simp only [pairStep] at hstep
    split at hstep
    · cases hstep
    · next x hget =>
      cases hstep
      exact h.call hN hget now c
  | signEvent i createdAt kind tags content =>
    simp only [pairStep] at hstep
    split at hstep
    · cases hstep
    · next x hget =>
      cases hstep
      refine h.update hget (.refl x) (h.sound i x hget) (fun j => ?_) fun u hu => ?_
      · split_ifs with hj
        · rw [hj, hget]
        · rfl
      · rw [List.mem_singleton.mp hu]
        exact ⟨rfl, fun hkind => absurd hkind hideal⟩

/-! ## Where a payload comes from -/

theorem Honest.origin (hN : N.Lawful) (h : w.Honest N) {x : Endpoint K} {message : PairingMessage}
    (hreceived : x.session.Received N e message) (hauthentic : w.Authentic N e) {j : Nat}
    {y : Endpoint K} (hy : w.endpoints.get? j = some y) (hkey : e.pubkey = y.publicKey N) :
    Wrote N y.session e.toUnsigned message ∧ y.session.peerPubkey = some (x.publicKey N) ∧
      ∀ payloadType payload, message = .payload payloadType payload →
        (payloadType, payload) ∈ y.sent := by
  have hsigned := h.signed _ (hauthentic hreceived.verified j y hy hkey) hreceived.kind j y hy hkey
  obtain ⟨written, hwrote, hsent⟩ := hsigned
  obtain ⟨peer, shared, nonce, content, ts, hpeer, hshared, hencrypt, hu⟩ := hwrote
  have hcontent : e.content = content := congrArg Unsigned.content hu
  have htags : e.tags = [["p", peer.toHex]] := congrArg Unsigned.tags hu
  -- The tag names the endpoint that takes the event.
  have hto : peer = x.publicKey N := by
    have htagged := hreceived.tagged
    rw [PairingSession.hasPTag, htags] at htagged
    have hhex : peer.toHex = (N.publicKey x.session.keys).toHex := by simpa using htagged
    exact PublicKey.toHex_injective hhex
  obtain ⟨shared', decrypted, hshared', hopen, hread⟩ :=
    PairingSession.decryptMessage_ok hreceived.decrypted
  have hsame : shared' = shared := by
    rw [hkey] at hshared'
    have hcomm := hN.sharedKey_comm x.session.keys y.session.keys
    rw [hto] at hshared
    exact Option.some.inj (hshared'.symm.trans (hcomm.trans hshared))
  have hmessage : written = message := by
    have hplain := hN.decrypt_encrypt _ _ _ _ hencrypt
    rw [← hsame, ← hcontent, hopen] at hplain
    cases hplain
    rw [hN.fromJson_toJson] at hread
    exact Option.some.inj hread
  subst hmessage
  exact ⟨⟨peer, shared, nonce, content, ts, hpeer, hshared, hencrypt, hu⟩, by rw [hpeer, hto], hsent⟩

end Pairings

/-! ## Agreement -/

structure Agreement (N : Nostr K) (w : Pairings K) (x x' : Endpoint K) : Prop where
  once : x'.sent.length ≤ 1 ∧ x'.accepted.length ≤ 1
  absorbing : x.session.isTerminal = true → x'.session = x.session
  locked : ∀ p, x.session.peerPubkey = some p → x'.session.peerPubkey = some p
  sent : x'.sent = x.sent ∨ ∃ y, x.sent = [] ∧ x'.sent = [y] ∧ x.confirmed = true
  /-- A target takes a payload after its check and its user's approval, and the payload is the one
  that the source of its code has sent to this target. -/
  accepted : x.session.role = .target → x'.accepted = x.accepted ∨ ∃ y,
    x.accepted = [] ∧ x'.accepted = [y] ∧ x.checked = true ∧ x.approved = true ∧
      ∃ qr, x.qr = some qr ∧ ∀ j source, w.endpoints.get? j = some source →
        source.publicKey N = qr.sourcePubkey → source.sent = [y] ∧ source.confirmed = true ∧
          source.session.role = .source ∧ source.session.peerPubkey = some (x.publicKey N)

theorem agreement_refl {w : Pairings K} {x : Endpoint K} (hx : x.Sound) : Agreement N w x x where
  once := by
    have honce := hx.once
    omega
  absorbing _ := rfl
  locked _ hp := hp
  sent := .inl rfl
  accepted _ := .inl rfl

theorem agreement_call (hN : N.Lawful) {w : Pairings K} (h : w.Honest N) {x : Endpoint K}
    (hget : w.endpoints.get? i = some x) (now : Nat) {c : Call}
    (hauthentic : ∀ e ∈ c.event?, w.Authentic N e) :
    Agreement N w x (x.after c (x.session.call N now c).1.toOption (x.session.call N now c).2) := by
  have hx := h.sound i x hget
  have heffect := effect_of_call hN x.session now c
  have hlater := Endpoint.later_after hx heffect
  have hmoved := Endpoint.moved_after hx heffect
  have honce := (Endpoint.sound_after hx heffect).once
  refine ⟨by omega, hlater.ended, hlater.peer, hmoved.sent, fun htarget => ?_⟩
  rcases hmoved.accepted with hsame | ⟨y, e, hevent, hreceived, hnone, hone, hready⟩
  · exact .inl hsame
  · obtain ⟨hchecked, happroved⟩ := hready htarget
    obtain ⟨-, qr, hqr, hpeer⟩ := hx.target htarget
    refine .inr ⟨y, hnone, hone, hchecked, happroved, qr, hqr, fun j source hsource hkey => ?_⟩
    have hfrom : e.pubkey = source.publicKey N := (hreceived.fromPeer _ hpeer).trans hkey.symm
    obtain ⟨-, hto, hsent⟩ := h.origin hN hreceived (hauthentic e hevent) hsource hfrom
    have hmem : y ∈ source.sent := hsent y.1 y.2 rfl
    have hsound := h.sound j source hsource
    obtain ⟨hrole, hconfirmed⟩ := hsound.sent (List.ne_nil_of_mem hmem)
    refine ⟨?_, hconfirmed, hrole, hto⟩
    have hfew := hsound.once
    obtain ⟨z, hz⟩ : ∃ z, source.sent = [z] := by
      refine List.length_eq_one_iff.mp ?_
      have hpos := List.length_pos_of_mem hmem
      omega
    rw [hz] at hmem ⊢
    rw [List.mem_singleton.mp hmem]

/-- In every run, whatever events arrive, every step agrees. -/
theorem pairing_agreement (hN : N.Lawful) {actions : List (PairAction K)} {w w' : Pairings K}
    (hrun : run (pairStep N) .init actions = some w)
    (hideal : Meets (pairStep N) (Ideal N) .init actions) {a : PairAction K} (hnext : Ideal N w a)
    (hstep : pairStep N w a = some w') {i : Nat} {x : Endpoint K}
    (hget : w.endpoints.get? i = some x) :
    ∃ x', w'.endpoints.get? i = some x' ∧ Agreement N w x x' := by
  have hhonest := run_invariant_of_meets (Pairings.Honest N)
    (fun _ _ _ h hideal hstep => Pairings.honest_step hN h hideal hstep) Pairings.honest_init
    hideal hrun
  have hrefl : Agreement N w x x := agreement_refl (hhonest.sound i x hget)
  cases a with
  | newSource j keys sessionSecret relayUrl now =>
    simp only [pairStep] at hstep
    split at hstep
    · cases hstep
    · next hfree =>
      cases hstep
      refine ⟨x, ?_, hrefl⟩
      rw [Table.get?_set, if_neg, hget]
      rintro rfl
      rw [hfree] at hget
      cases hget
  | newTarget j qr keys now nonce ts =>
    simp only [pairStep] at hstep
    split at hstep
    · next s e hfree hnew =>
      cases hstep
      refine ⟨x, ?_, hrefl⟩
      rw [Table.get?_set, if_neg, hget]
      rintro rfl
      rw [hfree] at hget
      cases hget
    · cases hstep
  | call j now c =>
    simp only [pairStep] at hstep
    split at hstep
    · cases hstep
    · next y hy =>
      cases hstep
      by_cases hj : i = j
      · subst hj
        cases hget.symm.trans hy
        exact ⟨_, by rw [Table.get?_set, if_pos rfl], agreement_call hN hhonest hget now hnext⟩
      · exact ⟨x, by rw [Table.get?_set, if_neg hj, hget], hrefl⟩
  | signEvent j createdAt kind tags content =>
    simp only [pairStep] at hstep
    split at hstep
    · cases hstep
    · cases hstep
      exact ⟨x, hget, hrefl⟩

/-! ## A pairing of two devices -/

-- Literals are compared as lists of characters. Their bytes take the kernel far longer.
set_option maxRecDepth 2000 in
theorem contents_differ : offerContent ≠ confirmContent ∧ offerContent ≠ payloadContent ∧
    confirmContent ≠ payloadContent := by
  refine ⟨String.ofList_inj.not.mpr ?_, String.ofList_inj.not.mpr ?_,
    String.ofList_inj.not.mpr ?_⟩ <;> decide +kernel

theorem twoDevices_lawful : twoDevices.Lawful where
  decrypt_encrypt := by
    intro shared nonce plaintext content h
    simp only [twoDevices] at h ⊢
    split_ifs at h with hshared
    obtain ⟨x, hx, rfl⟩ := Option.map_eq_some_iff.mp h
    have hpredicate := List.find?_some hx
    simp only [decide_eq_true_eq] at hpredicate
    have hall : ∀ y ∈ sealedTexts,
        (sealedTexts.find? fun z => z.2.2 = y.2.2).map (·.2.1) = some y.2.1 := by
      simp [sealedTexts, contents_differ, List.find?]
    rw [if_pos hshared, hall x (List.mem_of_find?_eq_some hx), hpredicate.2]
  fromJson_toJson := PairingMessage.fromJson_toJson
  sharedKey_comm k k' := by cases k <;> cases k' <;> decide +kernel
  sign_toUnsigned := by
    intro k u e h
    obtain ⟨x, -, rfl⟩ := Option.map_eq_some_iff.mp h
    rfl

def pairTwoDevices : List (PairAction DeviceKey) :=
  [.newSource 0 .one zeroSecret "wss://relay" 0,
    .newTarget 1 ⟨1, generatorKey, zeroSecret, ["wss://relay"]⟩ .two 1 (nonceOf 1) 1,
    .call 0 2 (.handleOffer offerEvent), .call 0 3 (.confirmSas (nonceOf 2) 3),
    .call 1 4 (.handleSasConfirm confirmEvent), .call 1 5 .confirmTargetSas,
    .call 0 6 (.sendPayload .custom "hello" (nonceOf 3) 6)]

def takePayload : PairAction DeviceKey := .call 1 7 (.handlePayload payloadEvent)

theorem pairStep_newTarget {w : Pairings K} {i now ts : Nat} {qr : QrPayload} {keys : K}
    {nonce : Bytes} {s : PairingSession K} (hget : w.endpoints.get? i = none)
    (hnew : PairingSession.newTarget N qr keys now nonce ts = .ok (s, e)) :
    pairStep N w (.newTarget i qr keys now nonce ts) =
      some ⟨w.endpoints.set i (.new s (some qr)), w.signed ++ [e.toUnsigned]⟩ := by
  simp only [pairStep, hget, hnew]

theorem pairStep_call {w : Pairings K} {i now : Nat} {c : Call} {x : Endpoint K} {reply : Reply}
    {s : PairingSession K} (hget : w.endpoints.get? i = some x)
    (hcall : x.session.call N now c = (.ok reply, s)) :
    pairStep N w (.call i now c) =
      some ⟨w.endpoints.set i (x.after c (some reply) s), w.signed ++ reply.signs⟩ := by
  simp only [pairStep, hget, hcall]
  rfl

theorem pairing_agreement_two_devices : ∃ w w' x x',
    run (pairStep twoDevices) .init pairTwoDevices = some w ∧
      pairStep twoDevices w takePayload = some w' ∧ w.endpoints.get? 1 = some x ∧
      w'.endpoints.get? 1 = some x' ∧ x'.accepted = [(.custom, "hello")] ∧
      Agreement twoDevices w x x' := by
  let source := (PairingSession.newSource twoDevices .one zeroSecret "wss://relay" 0).1
  let code := formatSas (deriveSas twoDevices doubledKey.bytes zeroSecret).1
  have hoffer : source.call twoDevices 2 (.handleOffer offerEvent) =
      (.ok (.sas code), sourceSession .confirming [offerEvent.id]) := by
    decide +kernel
  have hconfirm : (sourceSession .confirming [offerEvent.id]).call twoDevices 3
      (.confirmSas (nonceOf 2) 3) =
        (.ok (.event confirmEvent), sourceSession .transferring [offerEvent.id]) := by
    decide +kernel
  have hcheck : (targetSession .confirming []).call twoDevices 4 (.handleSasConfirm confirmEvent) =
      (.ok (.sas code), targetSession .awaitingConfirmation [confirmEvent.id]) := by
    decide +kernel
  have hsend : (sourceSession .transferring [offerEvent.id]).call twoDevices 6
      (.sendPayload .custom "hello" (nonceOf 3) 6) =
        (.ok (.event payloadEvent), sourceSession .payloadExchanged [offerEvent.id]) := by
    decide +kernel
  have htake : (targetSession .transferring [confirmEvent.id]).call twoDevices 7
      (.handlePayload payloadEvent) = (.ok (.payload (.custom, "hello")),
        targetSession .payloadExchanged [payloadEvent.id, confirmEvent.id]) := by
    decide +kernel
  have hfresh : Pairings.Fresh twoDevices ⟨Table.set ∅ 0 (.new source none), []⟩ doubledKey := by
    intro i x hx
    rw [Table.get?_set, Table.get?_empty] at hx
    split_ifs at hx
    cases hx
    exact ⟨by decide +kernel, by rintro ⟨⟩⟩
  have hall : ∃ w, (run (pairStep twoDevices) .init pairTwoDevices = some w ∧
      Meets (pairStep twoDevices) (Ideal twoDevices) .init pairTwoDevices) ∧
      Ideal twoDevices w takePayload ∧ ∃ w', pairStep twoDevices w takePayload = some w' ∧
        ∃ x', w'.endpoints.get? 1 = some x' ∧ x'.accepted = [(.custom, "hello")] := by
    refine ⟨_, run_meets_cons ?_ rfl (run_meets_cons hfresh (pairStep_newTarget rfl newTarget_two)
      (run_meets_cons ?_ (pairStep_call rfl hoffer) (run_meets_cons ?_ (pairStep_call rfl hconfirm)
      (run_meets_cons ?_ (pairStep_call rfl hcheck) (run_meets_cons ?_ (pairStep_call rfl rfl)
      (run_meets_cons ?_ (pairStep_call rfl hsend) ⟨rfl, trivial⟩)))))), ?_, _,
      pairStep_call rfl htake, _, rfl, rfl⟩
    · exact fun _ _ h => by cases h
    · rintro e ⟨⟩ _ _ _ _ _
      exact List.mem_cons_self
    · rintro _ ⟨⟩
    · rintro e ⟨⟩ _ _ _ _ _
      simp [Reply.signs]
    · rintro _ ⟨⟩
    · rintro _ ⟨⟩
    · rintro e ⟨⟩ _ _ _ _ _
      simp [Reply.signs]
  obtain ⟨w, ⟨hrun, hideal⟩, hnext, w', hstep, x', hget', haccepted⟩ := hall
  cases hget : w.endpoints.get? 1 with
  | none =>
    rw [takePayload, pairStep, hget] at hstep
    cases hstep
  | some x =>
    obtain ⟨y, hy, hagreement⟩ :=
      pairing_agreement twoDevices_lawful hrun hideal hnext hstep hget
    cases hget'.symm.trans hy
    exact ⟨w, w', x, x', hrun, hstep, hget, hget', haccepted, hagreement⟩

end Vingilot.Pairing
