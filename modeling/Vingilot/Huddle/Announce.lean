import Vingilot.Huddle.Client
import Vingilot.Lib.Machine

/-!
# Who is told of a join or a leave (`buzz-relay/src/audio/handler.rs`)

The roster changes under the lock of the room, and it is announced later. An announcement that comes
too late overwrites what a newer one has said, unless another one still follows.
-/

namespace Vingilot.Huddle

open Machine

inductive Announcing where
  | admitted (pubkey : String) (peerIndex : UInt8)
  /-- After `peer_pubkeys`. -/
  | captured (pubkey : String) (peerIndex : UInt8) (peers : List RosterPeer)
  | announced
  /-- The peer is removed, and `left` comes next. -/
  | departed (pubkey : String) (peerIndex : UInt8)
deriving DecidableEq

/-- `maps` is what each client has made of the messages that it took from its queue. `dropped` is
kept for the statements only: a control queue was full. -/
structure Lobby where
  room : Room
  handlers : Table Uuid Announcing
  maps : Table Uuid PeerMap
  dropped : Bool

namespace Lobby

def init : Lobby := ⟨.new, ∅, ∅, false⟩

def overflows (w : Lobby) : Bool := w.room.peers.any fun p => ctrlChannelCapacity ≤ p.ctrl.length

def announce (w : Lobby) (msg : PeerCtrl) : Lobby :=
  { w with room := w.room.broadcastControl msg, dropped := w.dropped || w.overflows }

def setHandler (w : Lobby) (peerId : Uuid) (ph : Announcing) : Lobby :=
  { w with handlers := w.handlers.set peerId ph }

def view (w : Lobby) (p : AudioPeer) : PeerMap :=
  p.ctrl.foldl PeerMap.onCtrl ((w.maps.get? p.peerId).getD ∅)

end Lobby

inductive LobbyAction where
  | add (peerId : Uuid) (pubkey : String) (version : UInt8)
  | capture (peerId : Uuid)
  | announce (peerId : Uuid)
  | leave (peerId : Uuid)
  | announceLeft (peerId : Uuid)
  | hear (peerId : Uuid)

def lobbyStep (w : Lobby) : LobbyAction → Option Lobby
  | .add peerId pubkey version =>
    if (w.room.find? peerId).isSome || (w.handlers.get? peerId).isSome then none
    else
      match w.room.addPeer peerId pubkey version with
      | .error _ => some w
      | .ok (r, idx) =>
        some { w.setHandler peerId (.admitted pubkey idx) with
          room := r
          maps := w.maps.set peerId ∅ }
  | .capture peerId =>
    match w.handlers.get? peerId with
    | some (.admitted pubkey peerIndex) =>
      some (w.setHandler peerId (.captured pubkey peerIndex w.room.roster))
    | _ => none
  | .announce peerId =>
    match w.handlers.get? peerId with
    | some (.captured pubkey peerIndex peers) =>
      some ((w.announce (.joined pubkey peerIndex peers)).setHandler peerId .announced)
    | _ => none
  | .leave peerId =>
    match w.handlers.get? peerId, w.room.find? peerId with
    | some .announced, some peer =>
      some { w.setHandler peerId (.departed peer.pubkey peer.peerIndex) with
        room := (departure w.room peerId false).1 }
    | _, _ => none
  | .announceLeft peerId =>
    match w.handlers.get? peerId with
    | some (.departed pubkey peerIndex) =>
      some { w.announce (.left pubkey peerIndex) with handlers := w.handlers.remove peerId }
    | _ => none
  | .hear peerId =>
    match w.room.find? peerId with
    | none => none
    | some p =>
      match p.ctrl with
      | [] => none
      | msg :: rest => some { w with
          room := { w.room with peers := w.room.peers.map fun q =>
            if q.peerId = peerId then { q with ctrl := rest } else q }
          maps := w.maps.set peerId (((w.maps.get? peerId).getD ∅).onCtrl msg) }

theorem Room.Indexed.of_queues {r : Room} (h : r.Indexed) {f : AudioPeer → AudioPeer}
    (hid : ∀ p, (f p).peerId = p.peerId) (hroster : ∀ p, (f p).toRoster = p.toRoster) :
    Room.Indexed { r with peers := r.peers.map f } ∧
      Room.roster { r with peers := r.peers.map f } = r.roster := by
  have hsame : Room.roster { r with peers := r.peers.map f } = r.roster := by
    rw [Room.roster, Room.roster, List.map_map]
    exact List.map_congr_left fun p _ => hroster p
  refine ⟨⟨?_, ?_, ?_, ?_, h.free, h.nodup⟩, hsame⟩
  · rw [List.map_map]
    exact (List.map_congr_left fun p _ => hid p) ▸ h.ids
  · exact hsame ▸ h.indices
  · exact hsame ▸ h.fresh
  · exact hsame ▸ h.taken

/-! ## The condition -/

/-- A `joined` message that has yet to come says who is at the index. -/
def Announcing.tells (p : RosterPeer) : Announcing → Bool
  | .admitted .. => true
  | .captured _ _ peers => p ∈ peers
  | _ => false

def Announcing.leaves (i : UInt8) : Announcing → Bool
  | .departed _ peerIndex => peerIndex = i
  | _ => false

variable {peerId : Uuid} {ph : Announcing} {pubkey : String} {peerIndex : UInt8}

namespace Lobby

def follows (w : Lobby) (peerId : Uuid) (p : RosterPeer) : Bool :=
  w.handlers.toList.any fun x => x.1 ≠ peerId && x.2.tells p

def leftFollows (w : Lobby) (i : UInt8) : Bool :=
  w.handlers.toList.any fun x => x.2.leaves i

/-- What a `joined` message says is still so, or another announcement follows that sets it right.
When a `left` message is sent, the index is free or its new peer is still to be announced. -/
def inOrder (w : Lobby) : LobbyAction → Bool
  | .announce peerId =>
    match w.handlers.get? peerId with
    | some (.captured _ _ peers) => peers.all fun q =>
        match pubkeyAt w.room.roster q.peerIndex with
        | none => w.leftFollows q.peerIndex
        | some pubkey => pubkey = q.pubkey || w.follows peerId ⟨pubkey, q.peerIndex⟩
    | _ => true
  | .announceLeft peerId =>
    match w.handlers.get? peerId with
    | some (.departed _ peerIndex) =>
      (pubkeyAt w.room.roster peerIndex).all fun pubkey => w.follows peerId ⟨pubkey, peerIndex⟩
    | _ => true
  | _ => true

def finished (w : Lobby) : Bool := w.handlers.toList.all fun x => x.2 = .announced

variable {w : Lobby}

theorem follows_iff {p : RosterPeer} : w.follows peerId p = true ↔
    ∃ q ph, q ≠ peerId ∧ w.handlers.get? q = some ph ∧ ph.tells p = true := by
  rw [follows, List.any_eq_true]
  constructor
  · rintro ⟨⟨q, ph⟩, hmem, h⟩
    rw [Bool.and_eq_true, decide_eq_true_eq] at h
    exact ⟨q, ph, h.1, (Table.mem_toList _ _ _).mp hmem, h.2⟩
  · rintro ⟨q, ph, hne, hq, htells⟩
    refine ⟨(q, ph), (Table.mem_toList _ _ _).mpr hq, ?_⟩
    rw [Bool.and_eq_true, decide_eq_true_eq]
    exact ⟨hne, htells⟩

theorem leftFollows_iff {i : UInt8} : w.leftFollows i = true ↔
    ∃ q ph, w.handlers.get? q = some ph ∧ ph.leaves i = true := by
  rw [leftFollows, List.any_eq_true]
  constructor
  · rintro ⟨⟨q, ph⟩, hmem, hleaves⟩
    exact ⟨q, ph, (Table.mem_toList _ _ _).mp hmem, hleaves⟩
  · rintro ⟨q, ph, hq, hleaves⟩
    exact ⟨(q, ph), (Table.mem_toList _ _ _).mpr hq, hleaves⟩

theorem announced_of_finished (h : w.finished = true) {q : Uuid} (hq : w.handlers.get? q = some ph) :
    ph = .announced := by
  rw [finished, List.all_eq_true] at h
  simpa using h (q, ph) ((Table.mem_toList _ _ _).mpr hq)

/-! ## What each client will know -/

def Pending (w : Lobby) (p : RosterPeer) : Prop :=
  ∃ q ph, w.handlers.get? q = some ph ∧ ph.tells p = true

def Leaving (w : Lobby) (i : UInt8) : Prop :=
  ∃ q ph, w.handlers.get? q = some ph ∧ ph.leaves i = true

structure Inv (w : Lobby) : Prop where
  indexed : w.room.Indexed
  captured : ∀ q pubkey peerIndex peers,
    w.handlers.get? q = some (.captured pubkey peerIndex peers) → (indicesOf peers).Nodup
  absent : ∀ p ∈ w.room.peers, ∀ i, pubkeyAt w.room.roster i = none →
    (w.view p).get? i = none ∨ w.Leaving i
  present : ∀ p ∈ w.room.peers, ∀ i pubkey, pubkeyAt w.room.roster i = some pubkey →
    (w.view p).get? i = some pubkey ∨ w.Pending ⟨pubkey, i⟩

theorem inv_init : init.Inv where
  indexed := Room.indexed_new
  captured q pubkey peerIndex peers h := by cases h
  absent p h := by cases h
  present p h := by cases h

theorem Pending.setHandler {old : Announcing} {p : RosterPeer} (h : w.Pending p)
    (hold : w.handlers.get? peerId = some old) (htells : old.tells p = true → ph.tells p = true) :
    (w.setHandler peerId ph).Pending p := by
  obtain ⟨q, x, hq, hx⟩ := h
  by_cases heq : q = peerId
  · refine ⟨peerId, ph, by rw [Lobby.setHandler, Table.get?_set, if_pos rfl], htells ?_⟩
    rw [heq, hold] at hq
    cases hq
    exact hx
  · exact ⟨q, x, by rw [Lobby.setHandler, Table.get?_set, if_neg heq, hq], hx⟩

theorem Leaving.setHandler {old : Announcing} {i : UInt8} (h : w.Leaving i)
    (hold : w.handlers.get? peerId = some old) (hleaves : old.leaves i = true → ph.leaves i = true) :
    (w.setHandler peerId ph).Leaving i := by
  obtain ⟨q, x, hq, hx⟩ := h
  by_cases heq : q = peerId
  · refine ⟨peerId, ph, by rw [Lobby.setHandler, Table.get?_set, if_pos rfl], hleaves ?_⟩
    rw [heq, hold] at hq
    cases hq
    exact hx
  · exact ⟨q, x, by rw [Lobby.setHandler, Table.get?_set, if_neg heq, hq], hx⟩

theorem Inv.captured_setHandler (h : w.Inv)
    (hph : ∀ pubkey peerIndex peers, ph = .captured pubkey peerIndex peers →
      (indicesOf peers).Nodup) (q : Uuid) (pubkey : String) (peerIndex : UInt8)
    (peers : List RosterPeer)
    (hq : (w.setHandler peerId ph).handlers.get? q = some (.captured pubkey peerIndex peers)) :
    (indicesOf peers).Nodup := by
  rw [setHandler, Table.get?_set] at hq
  split_ifs at hq with heq
  · exact hph pubkey peerIndex peers (Option.some.inj hq)
  · exact h.captured q pubkey peerIndex peers hq

/-! ## What a step keeps -/

theorem Inv.broadcast (h : w.Inv) (msg : PeerCtrl) :
    (w.announce msg).room.Indexed ∧ (w.announce msg).room.roster = w.room.roster :=
  h.indexed.of_queues (fun _ => rfl) fun _ => rfl

theorem view_announce {msg : PeerCtrl} (hfull : w.overflows = false) {p : AudioPeer}
    (hp : p ∈ (w.announce msg).room.peers) :
    ∃ q ∈ w.room.peers, (w.announce msg).view p = (w.view q).onCtrl msg := by
  obtain ⟨q, hq, rfl⟩ := List.mem_map.mp hp
  refine ⟨q, hq, ?_⟩
  have hroom : q.ctrl.length < ctrlChannelCapacity := by
    rw [overflows, List.any_eq_false] at hfull
    simpa using hfull q hq
  change (Room.trySend ctrlChannelCapacity q.ctrl msg).foldl PeerMap.onCtrl _ = _
  rw [Room.trySend, if_pos hroom, List.foldl_append]
  rfl

theorem Inv.add (h : w.Inv) {version idx : UInt8} {r : Room}
    (hnew : ((w.room.find? peerId).isSome || (w.handlers.get? peerId).isSome) = false)
    (hadd : w.room.addPeer peerId pubkey version = .ok (r, idx)) :
    Inv { w.setHandler peerId (.admitted pubkey idx) with
      room := r
      maps := w.maps.set peerId ∅ } := by
  rw [Bool.or_eq_false_iff] at hnew
  have hid : w.room.find? peerId = none := by simpa using hnew.1
  obtain ⟨hindexed, hidx⟩ := h.indexed.addPeer hid hadd
  obtain ⟨-, -, g, -, rfl⟩ := Room.addPeer_eq_ok hadd
  have hpending : ∀ p, Pending { w.setHandler peerId (.admitted pubkey idx) with
      room := w.room.insert (g.pin version) peerId pubkey idx
      maps := w.maps.set peerId ∅ } p := by
    intro p
    exact ⟨peerId, _, by rw [setHandler, Table.get?_set, if_pos rfl], rfl⟩
  refine ⟨hindexed, ?_, fun p hp i hi => ?_, fun p _ i pk _ => Or.inr (hpending _)⟩
  · refine h.captured_setHandler ?_
    intro pubkey' peerIndex peers heq
    cases heq
  · change pubkeyAt (Room.roster _) i = none at hi
    rw [Room.roster_insert, pubkeyAt_append hidx] at hi
    split_ifs at hi with heq
    rcases List.mem_append.mp hp with hp | hp
    · have hne : p.peerId ≠ peerId := by
        intro hsame
        have hsome := Room.isSome_find?.mpr ⟨p, hp, hsame⟩
        rw [hid] at hsome
        cases hsome
      rcases h.absent p hp i hi with habsent | ⟨q, ph, hq, hleaves⟩
      · refine Or.inl ?_
        rw [view, Table.get?_set, if_neg hne]
        exact habsent
      · refine Or.inr ⟨q, ph, ?_, hleaves⟩
        have hqne : q ≠ peerId := by
          rintro rfl
          rw [hq] at hnew
          cases hnew.2
        rw [setHandler, Table.get?_set, if_neg hqne, hq]
    · rw [List.mem_singleton.mp hp]
      refine Or.inl ?_
      rw [view, Table.get?_set, if_pos rfl]
      rfl

theorem Inv.capture (h : w.Inv)
    (hhandler : w.handlers.get? peerId = some (.admitted pubkey peerIndex)) :
    (w.setHandler peerId (.captured pubkey peerIndex w.room.roster)).Inv := by
  refine ⟨h.indexed, ?_, fun p hp i hi => ?_, fun p hp i pk hi => Or.inr ?_⟩
  · refine h.captured_setHandler ?_
    intro pubkey' peerIndex' peers heq
    cases heq
    exact h.indexed.indices
  · refine (h.absent p hp i hi).imp_right fun hl => ?_
    exact hl.setHandler hhandler (by simp [Announcing.leaves])
  · refine ⟨peerId, _, by rw [setHandler, Table.get?_set, if_pos rfl], ?_⟩
    have hmem := (pubkeyAt_eq_some h.indexed.indices).mp hi
    simpa [Announcing.tells] using hmem

theorem Inv.joined (h : w.Inv) {peers : List RosterPeer}
    (hhandler : w.handlers.get? peerId = some (.captured pubkey peerIndex peers))
    (hcond : w.inOrder (.announce peerId) = true) (hfull : w.overflows = false) :
    ((w.announce (.joined pubkey peerIndex peers)).setHandler peerId .announced).Inv := by
  obtain ⟨hindexed, hroster⟩ := h.broadcast (.joined pubkey peerIndex peers)
  have hnodup := h.captured _ _ _ _ hhandler
  simp only [inOrder, hhandler, List.all_eq_true] at hcond
  refine ⟨hindexed, ?_, fun p hp i hi => ?_, fun p hp i pk hi => ?_⟩
  · refine h.captured_setHandler ?_
    intro pubkey' peerIndex' peers' heq
    cases heq
  · replace hi : pubkeyAt w.room.roster i = none := hroster ▸ hi
    obtain ⟨q, hq, hview⟩ := view_announce hfull hp
    have hget := PeerMap.get?_joined (w.view q) hnodup i
    change ((w.announce (.joined pubkey peerIndex peers)).view p).get? i = none ∨ _
    rw [hview, PeerMap.onCtrl, hget]
    cases hsaid : pubkeyAt peers i with
    | none =>
      rw [Option.none_or]
      refine (h.absent q hq i hi).imp_right fun hl => ?_
      exact hl.setHandler hhandler (by simp [Announcing.leaves])
    | some pk =>
      refine Or.inr ?_
      have hlater := hcond _ ((pubkeyAt_eq_some hnodup).mp hsaid)
      simp only [hi] at hlater
      have hl : w.Leaving i := leftFollows_iff.mp hlater
      exact hl.setHandler hhandler (by simp [Announcing.leaves])
  · replace hi : pubkeyAt w.room.roster i = some pk := hroster ▸ hi
    obtain ⟨q, hq, hview⟩ := view_announce hfull hp
    have hget := PeerMap.get?_joined (w.view q) hnodup i
    change ((w.announce (.joined pubkey peerIndex peers)).view p).get? i = some pk ∨ _
    rw [hview, PeerMap.onCtrl, hget]
    have hother : ∀ q ph, q ≠ peerId → w.handlers.get? q = some ph → ph.tells ⟨pk, i⟩ = true →
        ((w.announce (.joined pubkey peerIndex peers)).setHandler peerId .announced).Pending
          ⟨pk, i⟩ := by
      intro q ph hne hq htells
      exact ⟨q, ph, by rw [setHandler, Table.get?_set, if_neg hne]; exact hq, htells⟩
    cases hsaid : pubkeyAt peers i with
    | none =>
      rw [Option.none_or]
      refine (h.present q hq i pk hi).imp_right ?_
      rintro ⟨q', ph, hq', htells⟩
      refine hother q' ph ?_ hq' htells
      -- The handler that speaks now does not say who is at this index.
      rintro rfl
      rw [hhandler] at hq'
      cases hq'
      rw [Announcing.tells, decide_eq_true_eq, ← pubkeyAt_eq_some hnodup, hsaid] at htells
      cases htells
    | some pk' =>
      have hlater := hcond _ ((pubkeyAt_eq_some hnodup).mp hsaid)
      simp only [hi, Bool.or_eq_true, decide_eq_true_eq] at hlater
      rcases hlater with hsame | hfollows
      · exact Or.inl (by rw [Option.some_or, hsame])
      · obtain ⟨q', ph, hne, hq', htells⟩ := follows_iff.mp hfollows
        exact Or.inr (hother q' ph hne hq' htells)

theorem Inv.leave (h : w.Inv) {peer : AudioPeer}
    (hhandler : w.handlers.get? peerId = some .announced) (hpeer : w.room.find? peerId = some peer) :
    Inv { w.setHandler peerId (.departed peer.pubkey peer.peerIndex) with
      room := (departure w.room peerId false).1 } := by
  obtain ⟨herased, hleads⟩ := h.indexed.erase hpeer
  -- Whether the room ends makes no difference to its roster.
  obtain ⟨r, hr, hindexed, hpeers, hat⟩ : ∃ r, (departure w.room peerId false).1 = r ∧ r.Indexed ∧
      (∀ p ∈ r.peers, p ∈ w.room.peers) ∧ ∀ i, pubkeyAt r.roster i =
        if i = peer.peerIndex then none else pubkeyAt w.room.roster i := by
    have hsub : ∀ p ∈ (w.room.erase peer).peers, p ∈ w.room.peers :=
      fun p hp => (List.mem_filter.mp hp).1
    rcases departure_cases w.room peerId false with ⟨hnone, -⟩ | ⟨peer', hfind, heq | ⟨-, -, heq⟩⟩
    · rw [hnone] at hpeer
      cases hpeer
    · cases hpeer.symm.trans hfind
      exact ⟨_, congrArg Prod.fst heq, herased, hsub, hleads⟩
    · cases hpeer.symm.trans hfind
      exact ⟨_, congrArg Prod.fst heq, ⟨herased.ids, herased.indices, herased.fresh, herased.taken,
        herased.free, herased.nodup⟩, hsub, hleads⟩
  rw [hr]
  refine ⟨hindexed, ?_, fun p hp i hi => ?_, fun p hp i pk hi => ?_⟩
  · refine h.captured_setHandler ?_
    intro pubkey' peerIndex' peers heq
    cases heq
  · change pubkeyAt r.roster i = none at hi
    rw [hat] at hi
    split_ifs at hi with heq
    · refine Or.inr ⟨peerId, _, by rw [setHandler, Table.get?_set, if_pos rfl], ?_⟩
      rw [Announcing.leaves, heq]
      exact decide_eq_true rfl
    · refine (h.absent p (hpeers p hp) i hi).imp_right fun hl => ?_
      exact hl.setHandler hhandler (by simp [Announcing.leaves])
  · change pubkeyAt r.roster i = some pk at hi
    rw [hat] at hi
    split_ifs at hi with heq
    refine (h.present p (hpeers p hp) i pk hi).imp_right fun hl => ?_
    exact hl.setHandler hhandler (by simp [Announcing.tells])

theorem Inv.left (h : w.Inv) (hhandler : w.handlers.get? peerId = some (.departed pubkey peerIndex))
    (hcond : w.inOrder (.announceLeft peerId) = true) (hfull : w.overflows = false) :
    Inv { w.announce (.left pubkey peerIndex) with handlers := w.handlers.remove peerId } := by
  obtain ⟨hindexed, hroster⟩ := h.broadcast (.left pubkey peerIndex)
  simp only [inOrder, hhandler] at hcond
  refine ⟨hindexed, fun q pk i peers hq => ?_, fun p hp i hi => ?_, fun p hp i pk hi => ?_⟩
  · change (w.handlers.remove peerId).get? q = _ at hq
    rw [Table.get?_remove] at hq
    split_ifs at hq
    exact h.captured q pk i peers hq
  · replace hi : pubkeyAt w.room.roster i = none := hroster ▸ hi
    obtain ⟨q, hq, hview⟩ := view_announce hfull hp
    change ((w.announce (.left pubkey peerIndex)).view p).get? i = none ∨ _
    rw [hview, PeerMap.onCtrl, PeerMap.left, Table.get?_remove]
    by_cases heq : i = peerIndex
    · exact Or.inl (if_pos heq)
    · rw [if_neg heq]
      refine (h.absent q hq i hi).imp_right ?_
      rintro ⟨q', ph, hq', hleaves⟩
      refine ⟨q', ph, ?_, hleaves⟩
      have hne : q' ≠ peerId := by
        rintro rfl
        rw [hhandler] at hq'
        cases hq'
        rw [Announcing.leaves, decide_eq_true_eq] at hleaves
        exact heq hleaves.symm
      rw [Table.get?_remove, if_neg hne, hq']
  · replace hi : pubkeyAt w.room.roster i = some pk := hroster ▸ hi
    have hother : ∀ q ph, q ≠ peerId → w.handlers.get? q = some ph → ph.tells ⟨pk, i⟩ = true →
        Pending { w.announce (.left pubkey peerIndex) with
          handlers := w.handlers.remove peerId } ⟨pk, i⟩ := by
      intro q ph hne hq htells
      exact ⟨q, ph, by rw [Table.get?_remove, if_neg hne, hq], htells⟩
    obtain ⟨q, hq, hview⟩ := view_announce hfull hp
    change ((w.announce (.left pubkey peerIndex)).view p).get? i = some pk ∨ _
    rw [hview, PeerMap.onCtrl, PeerMap.left, Table.get?_remove]
    by_cases heq : i = peerIndex
    · rw [← heq, hi, Option.all_some] at hcond
      obtain ⟨q', ph, hne, hq', htells⟩ := follows_iff.mp hcond
      exact Or.inr (hother q' ph hne hq' htells)
    · rw [if_neg heq]
      refine (h.present q hq i pk hi).imp_right ?_
      rintro ⟨q', ph, hq', htells⟩
      refine hother q' ph ?_ hq' htells
      rintro rfl
      rw [hhandler] at hq'
      cases hq'
      cases htells

theorem Inv.hear (h : w.Inv) {peer : AudioPeer} {msg : PeerCtrl} {rest : List PeerCtrl}
    (hpeer : w.room.find? peerId = some peer) (hctrl : peer.ctrl = msg :: rest) : Inv { w with
      room := { w.room with peers := w.room.peers.map fun q =>
        if q.peerId = peerId then { q with ctrl := rest } else q }
      maps := w.maps.set peerId (((w.maps.get? peerId).getD ∅).onCtrl msg) } := by
  obtain ⟨hindexed, hroster⟩ := h.indexed.of_queues
    (f := fun q => if q.peerId = peerId then { q with ctrl := rest } else q)
    (fun q => by split_ifs <;> rfl) (fun q => by split_ifs <;> rfl)
  have hview : ∀ p ∈ w.room.peers.map (fun q =>
      if q.peerId = peerId then { q with ctrl := rest } else q), ∃ q ∈ w.room.peers,
      p.ctrl.foldl PeerMap.onCtrl (((w.maps.set peerId
        (((w.maps.get? peerId).getD ∅).onCtrl msg)).get? p.peerId).getD ∅) = w.view q := by
    intro p hp
    obtain ⟨q, hq, rfl⟩ := List.mem_map.mp hp
    refine ⟨q, hq, ?_⟩
    by_cases hid : q.peerId = peerId
    · have hsame : q = peer := List.inj_on_of_nodup_map h.indexed.ids hq
        (List.mem_of_find?_eq_some hpeer) (hid.trans (Room.peerId_of_find? hpeer).symm)
      rw [if_pos hid]
      dsimp only
      rw [Table.get?_set, if_pos hid, view, hsame, hctrl, Room.peerId_of_find? hpeer]
      rfl
    · rw [if_neg hid, Table.get?_set, if_neg hid, view]
  refine ⟨hindexed, h.captured, fun p hp i hi => ?_, fun p hp i pk hi => ?_⟩
  · obtain ⟨q, hq, heq⟩ := hview p hp
    rw [view, heq]
    exact h.absent q hq i (hroster ▸ hi)
  · obtain ⟨q, hq, heq⟩ := hview p hp
    rw [view, heq]
    exact h.present q hq i pk (hroster ▸ hi)

theorem inv_step {w' : Lobby} {a : LobbyAction} (h : w.dropped = false → w.Inv)
    (hcond : w.inOrder a = true) (hstep : lobbyStep w a = some w') :
    w'.dropped = false → w'.Inv := by
  intro hdropped
  cases a with
  | add peerId pubkey version =>
    simp only [lobbyStep] at hstep
    split_ifs at hstep with hnew
    split at hstep
    · cases hstep
      exact h hdropped
    · next r idx hadd =>
      cases hstep
      exact (h hdropped).add (by simpa using hnew) hadd
  | capture peerId =>
    simp only [lobbyStep] at hstep
    split at hstep
    · next pubkey peerIndex hhandler =>
      cases hstep
      exact (h hdropped).capture hhandler
    · cases hstep
  | announce peerId =>
    simp only [lobbyStep] at hstep
    split at hstep
    · next pubkey peerIndex peers hhandler =>
      cases hstep
      obtain ⟨hbefore, hfull⟩ := Bool.or_eq_false_iff.mp hdropped
      exact (h hbefore).joined hhandler hcond hfull
    · cases hstep
  | leave peerId =>
    simp only [lobbyStep] at hstep
    split at hstep
    · next peer hhandler hpeer =>
      cases hstep
      exact (h hdropped).leave hhandler hpeer
    · cases hstep
  | announceLeft peerId =>
    simp only [lobbyStep] at hstep
    split at hstep
    · next pubkey peerIndex hhandler =>
      cases hstep
      obtain ⟨hbefore, hfull⟩ := Bool.or_eq_false_iff.mp hdropped
      exact (h hbefore).left hhandler hcond hfull
    · cases hstep
  | hear peerId =>
    simp only [lobbyStep] at hstep
    split at hstep
    · cases hstep
    · next peer hpeer =>
      split at hstep
      · cases hstep
      · next msg rest hctrl =>
        cases hstep
        exact (h hdropped).hear hpeer hctrl

/-! ## Runs -/

/-- When all have announced what they did, each client knows who is at which index once it has taken
what is in its queue. -/
def Informed (w : Lobby) : Prop :=
  w.dropped = false → w.finished = true → ∀ p ∈ w.room.peers, (w.view p).Agrees w.room.roster

theorem Inv.informed (h : w.dropped = false → w.Inv) : w.Informed := by
  intro hdropped hfinished p hp i
  cases hi : pubkeyAt w.room.roster i with
  | none =>
    rcases (h hdropped).absent p hp i hi with habsent | ⟨q, ph, hq, hleaves⟩
    · exact habsent
    · rw [announced_of_finished hfinished hq] at hleaves
      cases hleaves
  | some pubkey =>
    rcases (h hdropped).present p hp i pubkey hi with hpresent | ⟨q, ph, hq, htells⟩
    · exact hpresent
    · rw [announced_of_finished hfinished hq] at htells
      cases htells

/-- Announcements in order leave every client with the roster of the room. -/
theorem informed_of_inOrder {as : List LobbyAction} {w : Lobby}
    (hmeets : Meets lobbyStep (fun w a => w.inOrder a = true) init as)
    (hrun : run lobbyStep init as = some w) : w.Informed :=
  Inv.informed (run_invariant_of_meets (fun w : Lobby => w.dropped = false → w.Inv)
    (fun _ _ _ hinv hcond hstep => inv_step hinv hcond hstep) (fun _ => inv_init) hmeets hrun)

def recycled : List LobbyAction :=
  [.add 1 "a" 2, .capture 1, .add 2 "b" 2, .announce 1, .capture 2, .hear 1, .announce 2,
    .leave 1, .announceLeft 1, .add 3 "c" 2, .capture 3, .announce 3, .hear 2, .hear 2]

theorem informed_of_recycled : ∃ w, run lobbyStep init recycled = some w ∧
    w.room.roster = [⟨"b", 1⟩, ⟨"c", 0⟩] ∧
      ∀ p ∈ w.room.peers, (w.view p).Agrees w.room.roster := by
  have hmeets : Meets lobbyStep (fun w a => w.inOrder a = true) init recycled := by decide +kernel
  have hdemo : ((run lobbyStep init recycled).any fun w => !w.dropped && w.finished &&
      decide (w.room.roster = [⟨"b", 1⟩, ⟨"c", 0⟩])) = true := by decide +kernel
  obtain ⟨w, hrun, h⟩ := (Option.any_eq_true _ _).mp hdemo
  rw [Bool.and_eq_true, Bool.and_eq_true, Bool.not_eq_true', decide_eq_true_eq] at h
  exact ⟨w, hrun, h.2, informed_of_inOrder hmeets hrun h.1.1 h.1.2⟩

/-- The index of `a` goes to `c`, who is announced before it is said that `a` has left. -/
def leftLate : List LobbyAction :=
  [.add 1 "a" 2, .capture 1, .announce 1, .add 2 "b" 2, .capture 2, .announce 2, .leave 1,
    .add 3 "c" 2, .capture 3, .announce 3, .announceLeft 1]

theorem left_takes_successor : ∃ w p, run lobbyStep init leftLate = some w ∧ w.dropped = false ∧
    w.finished = true ∧ p ∈ w.room.peers ∧ pubkeyAt w.room.roster 0 = some "c" ∧
      (w.view p).get? 0 = none := by
  have hdemo : ((run lobbyStep init leftLate).any fun w => !w.dropped && w.finished &&
      decide (pubkeyAt w.room.roster 0 = some "c") &&
        w.room.peers.any fun p => ((w.view p).get? 0).isNone) = true := by decide +kernel
  obtain ⟨w, hrun, h⟩ := (Option.any_eq_true _ _).mp hdemo
  rw [Bool.and_eq_true, Bool.and_eq_true, Bool.and_eq_true, Bool.not_eq_true',
    decide_eq_true_eq, List.any_eq_true] at h
  obtain ⟨⟨⟨hdropped, hfinished⟩, hroster⟩, p, hp, hnone⟩ := h
  exact ⟨w, p, hrun, hdropped, hfinished, hp, hroster, Option.isNone_iff_eq_none.mp hnone⟩

end Lobby

end Vingilot.Huddle
