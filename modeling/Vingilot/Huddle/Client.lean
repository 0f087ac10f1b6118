import Vingilot.Huddle.OneRoom

/-!
# Who speaks at an index (`huddle/playout.rs` and `audio/room.rs`)

A client keeps a map from indices to public keys by the control messages that it gets. No two peers
of a room have the same index, however these are recycled.
-/

namespace Vingilot.Huddle

/-! ## The map of the client -/

/-- `index_to_pubkey`. -/
abbrev PeerMap := Table UInt8 String

namespace PeerMap

/-- `joined` carries a list of peers, whose entries are inserted. -/
def joined (m : PeerMap) (peers : List RosterPeer) : PeerMap :=
  peers.foldl (fun m p => m.set p.peerIndex p.pubkey) m

def roster (peers : List RosterPeer) : PeerMap := joined ∅ peers

def left (m : PeerMap) (peerIndex : UInt8) : PeerMap := m.remove peerIndex

def onCtrl (m : PeerMap) : PeerCtrl → PeerMap
  | .joined _ _ peers => m.joined peers
  | .left _ peerIndex => m.left peerIndex
  | .close => m

end PeerMap

def pubkeyAt (peers : List RosterPeer) (i : UInt8) : Option String :=
  (peers.find? fun p => p.peerIndex = i).map (·.pubkey)

def PeerMap.Agrees (m : PeerMap) (peers : List RosterPeer) : Prop :=
  ∀ i, m.get? i = pubkeyAt peers i

def indicesOf (peers : List RosterPeer) : List UInt8 := peers.map (·.peerIndex)

variable {peers : List RosterPeer} {i : UInt8}

theorem pubkeyAt_eq_none : pubkeyAt peers i = none ↔ i ∉ indicesOf peers := by
  rw [pubkeyAt, Option.map_eq_none_iff, List.find?_eq_none, indicesOf, List.mem_map]
  simp

variable {pubkey : String}

theorem pubkeyAt_eq_some (hnodup : (indicesOf peers).Nodup) :
    pubkeyAt peers i = some pubkey ↔ ⟨pubkey, i⟩ ∈ peers := by
  rw [pubkeyAt, Option.map_eq_some_iff]
  constructor
  · rintro ⟨p, hp, rfl⟩
    have hi : p.peerIndex = i := by simpa using List.find?_some hp
    have hmem := List.mem_of_find?_eq_some hp
    rw [← hi]
    exact hmem
  · intro hmem
    obtain ⟨p, hp⟩ : ∃ p, peers.find? (fun p => p.peerIndex = i) = some p := by
      rw [← Option.isSome_iff_exists, List.find?_isSome]
      exact ⟨_, hmem, by simp⟩
    have hi : p.peerIndex = i := by simpa using List.find?_some hp
    have hsame := List.inj_on_of_nodup_map hnodup (List.mem_of_find?_eq_some hp) hmem hi
    exact ⟨p, hp, by rw [hsame]⟩

theorem pubkeyAt_perm {peers' : List RosterPeer} (hperm : peers.Perm peers')
    (hnodup : (indicesOf peers).Nodup) (i : UInt8) : pubkeyAt peers i = pubkeyAt peers' i := by
  have hnodup' : (indicesOf peers').Nodup := (hperm.map _).nodup_iff.mp hnodup
  ext pubkey
  rw [pubkeyAt_eq_some hnodup, pubkeyAt_eq_some hnodup', hperm.mem_iff]

theorem PeerMap.get?_joined (m : PeerMap) (hnodup : (indicesOf peers).Nodup) (i : UInt8) :
    (m.joined peers).get? i = (pubkeyAt peers i).or (m.get? i) := by
  unfold PeerMap.joined
  induction peers generalizing m with
  | nil => rfl
  | cons p peers ih =>
    rw [indicesOf, List.map_cons, List.nodup_cons] at hnodup
    rw [List.foldl_cons, ih _ hnodup.2, Table.get?_set, pubkeyAt, pubkeyAt, List.find?_cons]
    by_cases hi : p.peerIndex = i
    · have hnone : pubkeyAt peers i = none := pubkeyAt_eq_none.mpr (hi ▸ hnodup.1)
      rw [pubkeyAt] at hnone
      simp [hi, hnone]
    · simp [hi, Ne.symm hi]

theorem PeerMap.agrees_roster (hnodup : (indicesOf peers).Nodup) :
    (PeerMap.roster peers).Agrees peers := by
  intro i
  rw [roster, get?_joined _ hnodup, Table.get?_empty, Option.or_none]

/-! ## The indices of a room -/

@[simp] theorem Room.roster_insert (r : Room) (g : AdmissionGuard) (peerId : Uuid) (pubkey : String)
    (idx : UInt8) : (r.insert g peerId pubkey idx).roster = r.roster ++ [⟨pubkey, idx⟩] :=
  List.map_append

theorem pubkeyAt_append {p : RosterPeer} (hnew : p.peerIndex ∉ indicesOf peers) (i : UInt8) :
    pubkeyAt (peers ++ [p]) i = if i = p.peerIndex then some p.pubkey else pubkeyAt peers i := by
  rw [pubkeyAt, List.find?_append, pubkeyAt]
  by_cases hi : i = p.peerIndex
  · have hnone := pubkeyAt_eq_none.mpr hnew
    rw [pubkeyAt, Option.map_eq_none_iff] at hnone
    rw [hi, hnone]
    simp
  · simp [hi, Ne.symm hi]

structure Room.Indexed (r : Room) : Prop where
  ids : (r.peers.map (·.peerId)).Nodup
  indices : (indicesOf r.roster).Nodup
  fresh : ∀ i ∈ indicesOf r.roster, i < r.guard.nextFresh ∨ r.guard.nextFresh = 255
  taken : ∀ i ∈ indicesOf r.roster, i ∉ r.guard.free
  free : ∀ i ∈ r.guard.free, i < r.guard.nextFresh ∨ r.guard.nextFresh = 255
  nodup : r.guard.free.Nodup

theorem Room.indexed_new : Room.new.Indexed where
  ids := List.nodup_nil
  indices := List.nodup_nil
  fresh i h := by cases h
  taken i h := by cases h
  free i h := by cases h
  nodup := List.nodup_nil

theorem UInt8.lt_succ_of_le {n : UInt8} (hi : i ≤ n) (hn : n ≠ 255) : i < n + 1 := by
  have hne : n.toNat ≠ 255 := fun h => hn (UInt8.toNat_inj.mp h)
  have hbound := n.toNat_lt
  rw [UInt8.le_iff_toNat_le] at hi
  rw [UInt8.lt_iff_toNat_lt, UInt8.toNat_add, UInt8.toNat_one, Nat.mod_eq_of_lt (by omega)]
  omega

variable {r : Room}

theorem Room.mem_indices : i ∈ indicesOf r.roster ↔ ∃ p ∈ r.peers, p.peerIndex = i := by
  rw [indicesOf, Room.roster, List.map_map, List.mem_map]
  rfl

variable {peerId : Uuid} {idx : UInt8}

theorem Room.Indexed.insert (h : r.Indexed) {g : AdmissionGuard} (hid : r.find? peerId = none)
    (hidx : idx ∉ indicesOf r.roster)
    (hfresh : ∀ i, i ∈ indicesOf r.roster ∨ i = idx → i < g.nextFresh ∨ g.nextFresh = 255)
    (htaken : ∀ i, i ∈ indicesOf r.roster ∨ i = idx → i ∉ g.free)
    (hfree : ∀ i ∈ g.free, i < g.nextFresh ∨ g.nextFresh = 255) (hnodup : g.free.Nodup) :
    (r.insert g peerId pubkey idx).Indexed := by
  have hmem : ∀ i, i ∈ indicesOf (r.insert g peerId pubkey idx).roster ↔
      i ∈ indicesOf r.roster ∨ i = idx := by
    intro i
    rw [Room.roster_insert, indicesOf, List.map_append, List.mem_append, List.map_singleton,
      List.mem_singleton]
    rfl
  refine ⟨?_, ?_, ?_, ?_, hfree, hnodup⟩
  · change ((r.peers ++ [_]).map _).Nodup
    rw [List.map_append, List.nodup_append]
    refine ⟨h.ids, List.nodup_singleton _, ?_⟩
    rintro a ha b hb rfl
    rw [List.map_singleton, List.mem_singleton] at hb
    obtain ⟨p, hp, hpid⟩ := List.mem_map.mp ha
    have hsome := Room.isSome_find?.mpr ⟨p, hp, hpid.trans hb⟩
    rw [hid] at hsome
    cases hsome
  · rw [Room.roster_insert, indicesOf, List.map_append, List.nodup_append]
    refine ⟨h.indices, List.nodup_singleton _, ?_⟩
    rintro a ha b hb rfl
    rw [List.map_singleton, List.mem_singleton] at hb
    rw [hb] at ha
    exact hidx ha
  · exact fun i hi => hfresh i ((hmem i).mp hi)
  · exact fun i hi => htaken i ((hmem i).mp hi)

theorem Room.Indexed.addPeer {r' : Room} (h : r.Indexed) {version : UInt8}
    (hid : r.find? peerId = none) (hadd : r.addPeer peerId pubkey version = .ok (r', idx)) :
    r'.Indexed ∧ idx ∉ indicesOf r.roster := by
  obtain ⟨-, -, g, halloc, rfl⟩ := Room.addPeer_eq_ok hadd
  unfold AdmissionGuard.alloc at halloc
  split at halloc
  · next i rest hfree =>
    cases halloc
    have hmem : idx ∈ r.guard.free := by rw [hfree]; exact List.mem_cons_self
    have hrest : ∀ i ∈ rest, i ∈ r.guard.free := by
      intro i hi
      rw [hfree]
      exact List.mem_cons_of_mem _ hi
    have hnodup := h.nodup
    rw [hfree, List.nodup_cons] at hnodup
    have hidx : idx ∉ indicesOf r.roster := fun hi => h.taken idx hi hmem
    refine ⟨h.insert hid hidx ?_ ?_ (fun i hi => h.free i (hrest i hi)) hnodup.2, hidx⟩
    · rintro i (hi | rfl)
      · exact h.fresh i hi
      · exact h.free i hmem
    · rintro i (hi | rfl) hfree'
      · exact h.taken i hi (hrest i hfree')
      · exact hnodup.1 hfree'
  · next hfree =>
    split_ifs at halloc with hlast
    cases halloc
    have hbelow : ∀ i ∈ indicesOf r.roster, i < r.guard.nextFresh :=
      fun i hi => (h.fresh i hi).resolve_right hlast
    have hidx : r.guard.nextFresh ∉ indicesOf r.roster :=
      fun hi => absurd (hbelow _ hi) (UInt8.lt_irrefl _)
    have hnone : ∀ i, i ∉ r.guard.free := by
      intro i hi
      rw [hfree] at hi
      cases hi
    refine ⟨h.insert hid hidx ?_ (fun i _ => hnone i) (fun i hi => absurd hi (hnone i)) h.nodup,
      hidx⟩
    rintro i (hi | rfl)
    · exact Or.inl (UInt8.lt_succ_of_le (UInt8.le_of_lt (hbelow i hi)) hlast)
    · exact Or.inl (UInt8.lt_succ_of_le (UInt8.le_refl _) hlast)

theorem Room.Indexed.addPeerAtIndex {r' : Room} (h : r.Indexed) {version : UInt8}
    (hid : r.find? peerId = none) (hadd : r.addPeerAtIndex peerId pubkey version idx = .ok r') :
    r'.Indexed ∧ idx ∉ indicesOf r.roster := by
  obtain ⟨-, -, hnobody, rfl⟩ := Room.addPeerAtIndex_eq_ok hadd
  have hidx : idx ∉ indicesOf r.roster := by
    intro hi
    obtain ⟨p, hp, hpi⟩ := Room.mem_indices.mp hi
    exact hnobody p hp hpi
  have hfree : ∀ i ∈ r.guard.free.filter fun i => i ≠ idx, i ∈ r.guard.free ∧ i ≠ idx := by
    intro i hi
    simpa using List.mem_filter.mp hi
  -- What was below the next fresh index still is.
  have hkeep : ∀ i, i < r.guard.nextFresh ∨ r.guard.nextFresh = 255 ∨ i = idx →
      i < (r.guard.reserve idx).nextFresh ∨ (r.guard.reserve idx).nextFresh = 255 := by
    intro i hi
    unfold AdmissionGuard.reserve
    dsimp only
    by_cases hle : r.guard.nextFresh ≤ idx
    · rw [if_pos hle]
      by_cases hlast : idx = 255
      · rw [if_pos hlast]
        exact Or.inr rfl
      · rw [if_neg hlast]
        refine Or.inl (UInt8.lt_succ_of_le ?_ hlast)
        rcases hi with hi | hi | rfl
        · exact UInt8.le_trans (UInt8.le_of_lt hi) hle
        · have hbound := idx.toNat_lt
          have hne : idx.toNat ≠ 255 := fun h => hlast (UInt8.toNat_inj.mp h)
          rw [hi, UInt8.le_iff_toNat_le] at hle
          change 255 ≤ idx.toNat at hle
          omega
        · exact UInt8.le_refl _
    · rw [if_neg hle]
      rcases hi with hi | hi | rfl
      · exact Or.inl hi
      · exact Or.inr hi
      · exact Or.inl (UInt8.not_le.mp hle)
  refine ⟨h.insert hid hidx ?_ ?_ ?_ (h.nodup.filter _), hidx⟩
  · rintro i (hi | rfl)
    · refine hkeep i ?_
      rcases h.fresh i hi with hi | hi
      · exact Or.inl hi
      · exact Or.inr (Or.inl hi)
    · exact hkeep i (Or.inr (Or.inr rfl))
  · rintro i (hi | rfl) hmem
    · exact h.taken i hi (hfree i hmem).1
    · exact (hfree i hmem).2 rfl
  · intro i hi
    refine hkeep i ?_
    rcases h.free i (hfree i hi).1 with hi | hi
    · exact Or.inl hi
    · exact Or.inr (Or.inl hi)

theorem Room.Indexed.erase (h : r.Indexed) {peer : AudioPeer} (hpeer : r.find? peerId = some peer) :
    (r.erase peer).Indexed ∧
      ∀ i, pubkeyAt (r.erase peer).roster i =
        if i = peer.peerIndex then none else pubkeyAt r.roster i := by
  have hmem : peer ∈ r.peers := List.mem_of_find?_eq_some hpeer
  have hseat : peer.peerIndex ∈ indicesOf r.roster := Room.mem_indices.mpr ⟨peer, hmem, rfl⟩
  have hidsInj := List.inj_on_of_nodup_map h.ids
  have hindices : (r.peers.map (·.peerIndex)).Nodup := by
    have hnodup := h.indices
    rw [indicesOf, Room.roster, List.map_map] at hnodup
    exact hnodup
  have hindicesInj := List.inj_on_of_nodup_map hindices
  have hrest : ∀ p, p ∈ (r.erase peer).peers ↔ p ∈ r.peers ∧ p.peerIndex ≠ peer.peerIndex := by
    intro p
    rw [Room.erase, List.mem_filter, decide_eq_true_eq]
    refine and_congr_right fun hp => not_congr ?_
    exact ⟨fun heq => congrArg AudioPeer.peerIndex (hidsInj hp hmem heq),
      fun heq => congrArg AudioPeer.peerId (hindicesInj hp hmem heq)⟩
  have hsub : (r.erase peer).peers.Sublist r.peers := List.filter_sublist
  have hmemIndices : ∀ i, i ∈ indicesOf (r.erase peer).roster ↔
      i ∈ indicesOf r.roster ∧ i ≠ peer.peerIndex := by
    intro i
    rw [Room.mem_indices, Room.mem_indices]
    constructor
    · rintro ⟨p, hp, rfl⟩
      obtain ⟨hp, hne⟩ := (hrest p).mp hp
      exact ⟨⟨p, hp, rfl⟩, hne⟩
    · rintro ⟨⟨p, hp, rfl⟩, hne⟩
      exact ⟨p, (hrest p).mpr ⟨hp, hne⟩, rfl⟩
  have hnodup : (indicesOf (r.erase peer).roster).Nodup := by
    rw [indicesOf, Room.roster, List.map_map]
    exact hindices.sublist (hsub.map _)
  refine ⟨⟨h.ids.sublist (hsub.map _), hnodup, ?_, ?_, ?_, ?_⟩, fun i => ?_⟩
  · exact fun i hi => h.fresh i ((hmemIndices i).mp hi).1
  · intro i hi hfree
    obtain ⟨hi, hne⟩ := (hmemIndices i).mp hi
    rcases List.mem_cons.mp hfree with heq | hold
    · exact hne heq
    · exact h.taken i hi hold
  · intro i hi
    rcases List.mem_cons.mp hi with rfl | hold
    · exact h.fresh _ hseat
    · exact h.free i hold
  · exact List.nodup_cons.mpr ⟨h.taken _ hseat, h.nodup⟩
  · split_ifs with hi
    · rw [pubkeyAt_eq_none, hmemIndices]
      exact fun hmem => hmem.2 hi
    · ext pubkey
      rw [pubkeyAt_eq_some hnodup, pubkeyAt_eq_some h.indices]
      constructor
      · intro hp
        obtain ⟨p, hp, heq⟩ := List.mem_map.mp hp
        exact List.mem_map.mpr ⟨p, ((hrest p).mp hp).1, heq⟩
      · intro hp
        obtain ⟨p, hp, heq⟩ := List.mem_map.mp hp
        refine List.mem_map.mpr ⟨p, (hrest p).mpr ⟨hp, ?_⟩, heq⟩
        intro hsame
        exact hi ((congrArg RosterPeer.peerIndex heq).symm.trans hsame)

end Vingilot.Huddle
