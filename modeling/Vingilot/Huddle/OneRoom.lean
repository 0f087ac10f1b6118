import Vingilot.Huddle.Connections
import Vingilot.Lib.Machine

/-!
# All participants of a huddle on a pod are in one room

A room leaves the map only when it is empty. That keeps the participants together as long as no
handler still holds the room: one that waits to be admitted to it, or one that has emptied it and
archives the channel.
-/

namespace Vingilot.Huddle

open Machine

/-! ## What the operations on a room do -/

variable {r r' : Room} {q peerId : Uuid} {pubkey : String} {version : UInt8}

namespace Room

theorem isSome_find? : (r.find? q).isSome ↔ ∃ p ∈ r.peers, p.peerId = q := by
  rw [find?, List.find?_isSome]
  simp only [decide_eq_true_eq]

theorem isSome_find?_insert (r : Room) (g : AdmissionGuard) (peerId q : Uuid) (pubkey : String)
    (idx : UInt8) : ((r.insert g peerId pubkey idx).find? q).isSome ↔
      (r.find? q).isSome ∨ peerId = q := by
  rw [isSome_find?, isSome_find?, insert]
  simp only [List.mem_append, List.mem_singleton, or_and_right, exists_or, exists_eq_left]

theorem addPeer_eq_ok {idx : UInt8} (h : r.addPeer peerId pubkey version = .ok (r', idx)) :
    r.guard.ended = false ∧ r.peers.length < maxPeersPerRoom ∧
      ∃ g, r.guard.alloc = some (idx, g) ∧ r' = r.insert (g.pin version) peerId pubkey idx := by
  unfold addPeer at h
  split_ifs at h with hended hfull
  split at h
  · cases h
  · split at h
    · cases h
    · next i g halloc =>
      cases h
      exact ⟨by simpa using hended, by omega, g, halloc, rfl⟩

theorem addPeerAtIndex_eq_ok {idx : UInt8} (h : r.addPeerAtIndex peerId pubkey version idx = .ok r') :
    r.guard.ended = false ∧ r.peers.length < maxPeersPerRoom ∧
      (∀ p ∈ r.peers, p.peerIndex ≠ idx) ∧
      r' = r.insert ((r.guard.pin version).reserve idx) peerId pubkey idx := by
  unfold addPeerAtIndex at h
  split_ifs at h with hended hfull
  split at h
  · cases h
  · cases h
    simp only [Bool.or_eq_true, decide_eq_true_eq, List.any_eq_true, not_or, not_exists, not_and]
      at hfull
    exact ⟨by simpa using hended, by omega, hfull.2, rfl⟩

theorem isSome_find?_erase (r : Room) (peer : AudioPeer) (hq : q ≠ peer.peerId) :
    ((r.erase peer).find? q).isSome ↔ (r.find? q).isSome := by
  rw [isSome_find?, isSome_find?, erase]
  simp only [List.mem_filter, decide_eq_true_eq]
  constructor
  · rintro ⟨p, ⟨hp, -⟩, rfl⟩
    exact ⟨p, hp, rfl⟩
  · rintro ⟨p, hp, rfl⟩
    exact ⟨p, ⟨hp, hq⟩, rfl⟩

theorem peerId_of_find? {peer : AudioPeer} (h : r.find? q = some peer) : peer.peerId = q := by
  simpa using List.find?_some h

end Room

theorem admission_eq_ok {remote : Option UInt8}
    (h : admission r peerId pubkey version remote = .ok r') :
    r.guard.ended = false ∧ ∃ g idx, r' = r.insert g peerId pubkey idx := by
  cases remote with
  | none =>
    cases hadd : r.addPeer peerId pubkey version with
    | error e => simp [admission, hadd, Except.map] at h
    | ok x =>
      obtain ⟨r'', idx⟩ := x
      obtain ⟨hended, -, g, -, rfl⟩ := Room.addPeer_eq_ok hadd
      rw [admission, hadd] at h
      cases h
      exact ⟨hended, _, _, rfl⟩
  | some idx =>
    obtain ⟨hended, -, -, rfl⟩ := Room.addPeerAtIndex_eq_ok h
    exact ⟨hended, _, _, rfl⟩

theorem departure_cases (r : Room) (peerId : Uuid) (remote : Bool) :
    (r.find? peerId = none ∧ departure r peerId remote = (r, false)) ∨
    ∃ peer, r.find? peerId = some peer ∧ (departure r peerId remote = (r.erase peer, false) ∨
      (r.guard.ended = false ∧ (r.erase peer).peers = [] ∧ departure r peerId remote =
        ({ r.erase peer with guard := { (r.erase peer).guard with ended := true } }, true))) := by
  unfold departure Room.removePeer Room.removePeerAndCheckEnded
  cases r.find? peerId with
  | none => exact Or.inl ⟨rfl, by split_ifs <;> rfl⟩
  | some peer =>
    refine Or.inr ⟨peer, rfl, ?_⟩
    by_cases hremote : remote = true
    · exact Or.inl (if_pos hremote)
    · rw [if_neg hremote]
      by_cases hlast : (!(r.erase peer).guard.ended && (r.erase peer).peers.isEmpty) = true
      · simp only [if_pos hlast]
        simp only [Bool.and_eq_true, Bool.not_eq_true', List.isEmpty_iff] at hlast
        exact Or.inr ⟨hlast.1, hlast.2, trivial⟩
      · simp only [if_neg hlast]
        exact Or.inl trivial

/-! ## The invariant -/

def Phase.holds (k : Nat) : Phase → Bool
  | .fetched j | .checked j | .emptied j => j = k
  | _ => false

structure Pod.Inv (w : Pod) : Prop where
  made : ∀ k r, w.rooms.get? k = some r → k < w.made
  current : ∀ k, w.current = some k → ∃ r, w.rooms.get? k = some r
  live : ∀ k r, w.rooms.get? k = some r → r.peers ≠ [] → w.current = some k
  held : ∀ c ph k, w.conns.get? c = some ph → ph.holds k = true → w.current = some k
  admitted : ∀ c k p b, w.conns.get? c = some (.admitted k p b) →
    ∃ r, w.rooms.get? k = some r ∧ (r.find? p).isSome
  distinct : ∀ c c' k p b b', w.conns.get? c = some (.admitted k p b) →
    w.conns.get? c' = some (.admitted k p b') → c = c'
  emptied : ∀ c k, w.conns.get? c = some (.emptied k) →
    ∃ r, w.rooms.get? k = some r ∧ r.peers = [] ∧ r.guard.ended = true
  single : ∀ c c' k, w.conns.get? c = some (.emptied k) → w.conns.get? c' = some (.emptied k) →
    c = c'
  archivedOver : w.archivedOver = false

theorem Pod.inv_init : Pod.init.Inv where
  made k r h := by cases h
  current k h := by cases h
  live k r h := by cases h
  held c ph k h := by cases h
  admitted c k p b h := by cases h
  distinct c c' k p b b' h := by cases h
  emptied c k h := by cases h
  single c c' k h := by cases h
  archivedOver := rfl

variable {w : Pod}

theorem Pod.Inv.forget (hinv : w.Inv) (c : Nat) : Pod.Inv { w with conns := w.conns.remove c } := by
  have hget : ∀ c' ph, (w.conns.remove c).get? c' = some ph → w.conns.get? c' = some ph := by
    intro c' ph h
    rw [Table.get?_remove] at h
    split_ifs at h
    exact h
  exact {
    made := hinv.made
    current := hinv.current
    live := hinv.live
    held := fun c' ph k h => hinv.held c' ph k (hget c' ph h)
    admitted := fun c' k p b h => hinv.admitted c' k p b (hget c' _ h)
    distinct := fun c₁ c₂ k p b b' h h' =>
      hinv.distinct c₁ c₂ k p b b' (hget c₁ _ h) (hget c₂ _ h')
    emptied := fun c' k h => hinv.emptied c' k (hget c' _ h)
    single := fun c₁ c₂ k h h' => hinv.single c₁ c₂ k (hget c₁ _ h) (hget c₂ _ h')
    archivedOver := hinv.archivedOver }

variable {c k : Nat}

theorem Pod.Inv.move (hinv : w.Inv) {x : Option Phase} {rooms : Table Nat Room}
    {conns : Table Nat Phase} (hconn : ∀ c', conns.get? c' = if c' = c then x else w.conns.get? c')
    (hroom : ∀ j, rooms.get? j = if j = k then some r' else w.rooms.get? j)
    (hr : w.rooms.get? k = some r) (hlive : r'.peers ≠ [] → w.current = some k)
    (hothers : ∀ c' p b, c' ≠ c → w.conns.get? c' = some (.admitted k p b) → (r'.find? p).isSome)
    (hended : ∀ c', c' ≠ c → w.conns.get? c' = some (.emptied k) →
      r'.peers = [] ∧ r'.guard.ended = true)
    (hheld : ∀ ph j, x = some ph → ph.holds j = true → w.current = some j)
    (hadmitted : ∀ j p b, x = some (.admitted j p b) → j = k ∧ (r'.find? p).isSome ∧
      ∀ c' b', c' ≠ c → w.conns.get? c' ≠ some (.admitted k p b'))
    (hemptied : ∀ j, x = some (.emptied j) → j = k ∧ r'.peers = [] ∧ r'.guard.ended = true ∧
      ∀ c', c' ≠ c → w.conns.get? c' ≠ some (.emptied k)) :
    Pod.Inv { w with rooms := rooms, conns := conns } := by
  have hsame : ∀ j s, w.rooms.get? j = some s → j ≠ k → rooms.get? j = some s := by
    intro j s hs hj
    rw [hroom, if_neg hj]
    exact hs
  have hk : rooms.get? k = some r' := by rw [hroom, if_pos rfl]
  refine ⟨?_, ?_, ?_, ?_, ?_, ?_, ?_, ?_, hinv.archivedOver⟩
  · intro j s hs
    change rooms.get? j = some s at hs
    rw [hroom] at hs
    split_ifs at hs with hj
    · exact hj ▸ hinv.made k r hr
    · exact hinv.made j s hs
  · intro j hj
    obtain ⟨s, hs⟩ := hinv.current j hj
    by_cases hjk : j = k
    · exact ⟨r', hjk ▸ hk⟩
    · exact ⟨s, hsame j s hs hjk⟩
  · intro j s hs hne
    change rooms.get? j = some s at hs
    rw [hroom] at hs
    split_ifs at hs with hj
    · cases hs
      exact hj ▸ hlive hne
    · exact hinv.live j s hs hne
  · intro c' ph' j h hholds
    change conns.get? c' = some ph' at h
    rw [hconn] at h
    split_ifs at h
    · exact hheld ph' j h hholds
    · exact hinv.held c' ph' j h hholds
  · intro c' j p b h
    change conns.get? c' = _ at h
    change ∃ s, rooms.get? j = some s ∧ _
    rw [hconn] at h
    split_ifs at h with hc
    · obtain ⟨rfl, hfind, -⟩ := hadmitted j p b h
      exact ⟨r', hk, hfind⟩
    · obtain ⟨s, hs, hfind⟩ := hinv.admitted c' j p b h
      by_cases hjk : j = k
      · subst hjk
        exact ⟨r', hk, hothers c' p b hc h⟩
      · exact ⟨s, hsame j s hs hjk, hfind⟩
  · intro c₁ c₂ j p b b' h h'
    change conns.get? c₁ = _ at h
    change conns.get? c₂ = _ at h'
    rw [hconn] at h h'
    split_ifs at h h' with h₁ h₂ h₂
    · exact h₁.trans h₂.symm
    · obtain ⟨rfl, -, hfresh⟩ := hadmitted j p b h
      exact absurd h' (hfresh c₂ b' h₂)
    · obtain ⟨rfl, -, hfresh⟩ := hadmitted j p b' h'
      exact absurd h (hfresh c₁ b h₁)
    · exact hinv.distinct c₁ c₂ j p b b' h h'
  · intro c' j h
    change conns.get? c' = _ at h
    change ∃ s, rooms.get? j = some s ∧ _
    rw [hconn] at h
    split_ifs at h with hc
    · obtain ⟨rfl, hpeers, hend, -⟩ := hemptied j h
      exact ⟨r', hk, hpeers, hend⟩
    · obtain ⟨s, hs, hpeers, hend⟩ := hinv.emptied c' j h
      by_cases hjk : j = k
      · subst hjk
        exact ⟨r', hk, hended c' hc h⟩
      · exact ⟨s, hsame j s hs hjk, hpeers, hend⟩
  · intro c₁ c₂ j h h'
    change conns.get? c₁ = _ at h
    change conns.get? c₂ = _ at h'
    rw [hconn] at h h'
    split_ifs at h h' with h₁ h₂ h₂
    · exact h₁.trans h₂.symm
    · obtain ⟨rfl, -, -, hfresh⟩ := hemptied j h
      exact absurd h' (hfresh c₂ h₂)
    · obtain ⟨rfl, -, -, hfresh⟩ := hemptied j h'
      exact absurd h (hfresh c₁ h₁)
    · exact hinv.single c₁ c₂ j h h'

theorem Pod.Inv.phase (hinv : w.Inv) {x : Option Phase} {conns : Table Nat Phase}
    (hconn : ∀ c', conns.get? c' = if c' = c then x else w.conns.get? c')
    (hr : w.rooms.get? k = some r)
    (hheld : ∀ ph j, x = some ph → ph.holds j = true → w.current = some j)
    (hadmitted : ∀ j p b, x ≠ some (.admitted j p b)) (hemptied : ∀ j, x ≠ some (.emptied j)) :
    Pod.Inv { w with conns := conns } := by
  refine hinv.move hconn (k := k) ?_ hr (hinv.live k r hr) ?_ ?_ hheld ?_ ?_
  · intro j
    split_ifs with hj
    · rw [hj, hr]
    · rfl
  · intro c' p b _ h
    obtain ⟨s, hs, hfind⟩ := hinv.admitted c' k p b h
    rw [hr] at hs
    cases hs
    exact hfind
  · intro c' _ h
    obtain ⟨s, hs, hempty⟩ := hinv.emptied c' k h
    rw [hr] at hs
    cases hs
    exact hempty
  · exact fun j p b h => absurd h (hadmitted j p b)
  · exact fun j h => absurd h (hemptied j)

theorem Pod.inv_getOrCreate (hinv : w.Inv) :
    w.getOrCreate.1.Inv ∧ w.getOrCreate.1.current = some w.getOrCreate.2 := by
  unfold Pod.getOrCreate
  cases hcurrent : w.current with
  | some k => exact ⟨hinv, hcurrent⟩
  | none =>
    refine ⟨?_, rfl⟩
    have hroom : ∀ j, (w.rooms.set w.made Room.new).get? j =
        if j = w.made then some Room.new else w.rooms.get? j := fun j => Table.get?_set ..
    have hnew : ∀ j s, w.rooms.get? j = some s → (w.rooms.set w.made Room.new).get? j = some s := by
      intro j s hs
      rw [hroom, if_neg (Nat.ne_of_lt (hinv.made j s hs))]
      exact hs
    have hnone : ∀ c ph k, w.conns.get? c = some ph → ph.holds k ≠ true := by
      intro c ph k h hholds
      have hk := hinv.held c ph k h hholds
      rw [hcurrent] at hk
      cases hk
    refine ⟨?_, ?_, ?_, ?_, ?_, hinv.distinct, ?_, hinv.single, hinv.archivedOver⟩
    · intro j s hs
      change (w.rooms.set w.made Room.new).get? j = some s at hs
      rw [hroom] at hs
      split_ifs at hs with hj
      · exact hj ▸ Nat.lt_succ_self j
      · exact Nat.lt_succ_of_lt (hinv.made j s hs)
    · intro j hj
      cases hj
      exact ⟨Room.new, by rw [hroom, if_pos rfl]⟩
    · intro j s hs hne
      change (w.rooms.set w.made Room.new).get? j = some s at hs
      rw [hroom] at hs
      split_ifs at hs with hj
      · cases hs
        exact absurd rfl hne
      · have hlive := hinv.live j s hs hne
        rw [hcurrent] at hlive
        cases hlive
    · exact fun c ph k h hholds => absurd hholds (hnone c ph k h)
    · intro c k p b h
      obtain ⟨s, hs, hfind⟩ := hinv.admitted c k p b h
      exact ⟨s, hnew k s hs, hfind⟩
    · intro c k h
      exact absurd (by simp [Phase.holds]) (hnone c _ k h)

/-! ## The condition -/

/-- A room leaves the map only when no handler waits to be admitted to it and none archives the
channel after emptying it. -/
def Pod.undisturbed (w : Pod) : ConnAction → Bool
  | .cleanup _ => !(w.evicts && w.current.any fun k => w.conns.toList.any fun x => x.2.holds k)
  | _ => true

theorem Pod.inv_cleanup (hinv : w.Inv) (hcond : w.undisturbed (.cleanup c) = true) :
    w.cleanupIfEmpty.Inv := by
  unfold Pod.cleanupIfEmpty
  split_ifs with hevicts
  · obtain ⟨k, hk, r, hr, hempty⟩ : ∃ k, w.current = some k ∧ ∃ r, w.rooms.get? k = some r ∧
        r.peers = [] := by
      unfold Pod.evicts at hevicts
      cases hk : w.current with
      | none => simp [hk] at hevicts
      | some k =>
        obtain ⟨r, hr⟩ := hinv.current k hk
        rw [hk, Option.bind_some, hr] at hevicts
        exact ⟨k, rfl, r, hr, List.isEmpty_iff.mp hevicts⟩
    have hfree : ∀ c ph, w.conns.get? c = some ph → ph.holds k = false := by
      intro c ph h
      rw [Pod.undisturbed, hevicts, hk] at hcond
      simp only [Bool.true_and, Option.any_some, Bool.not_eq_true', List.any_eq_false,
        Bool.not_eq_true] at hcond
      exact hcond (c, ph) ((Table.mem_toList _ _ _).mpr h)
    have hnone : ∀ j s, w.rooms.get? j = some s → s.peers = [] := by
      intro j s hs
      by_contra hne
      have hj := hinv.live j s hs hne
      rw [hk] at hj
      cases hj
      rw [hr] at hs
      cases hs
      exact hne hempty
    refine ⟨hinv.made, fun j hj => (by cases hj), ?_, ?_, hinv.admitted, hinv.distinct, hinv.emptied,
      hinv.single, hinv.archivedOver⟩
    · exact fun j s hs hne => absurd (hnone j s hs) hne
    · intro c ph j h hholds
      have hj := hinv.held c ph j h hholds
      rw [hk] at hj
      cases hj
      rw [hfree c ph h] at hholds
      cases hholds
  · exact hinv

/-! ## Steps -/

theorem Pod.inv_admit (hinv : w.Inv) {remote : Option UInt8}
    (hc : w.conns.get? c = some (.checked k)) (hr : w.rooms.get? k = some r)
    (hnew : (r.find? peerId).isSome = false)
    (hadmission : admission r peerId pubkey version remote = .ok r') : Pod.Inv { w with
      rooms := w.rooms.set k r'
      conns := w.conns.set c (.admitted k peerId remote.isSome) } := by
  obtain ⟨hopen, g, idx, rfl⟩ := admission_eq_ok hadmission
  have hcurrent : w.current = some k := hinv.held c _ k hc (by simp [Phase.holds])
  refine hinv.move (fun c' => Table.get?_set ..) (fun j => Table.get?_set ..) hr
    (fun _ => hcurrent) ?_ ?_ ?_ ?_ ?_
  · intro c' p b _ h
    obtain ⟨s, hs, hfind⟩ := hinv.admitted c' k p b h
    rw [hr] at hs
    cases hs
    exact (Room.isSome_find?_insert ..).mpr (Or.inl hfind)
  · intro c' _ h
    obtain ⟨s, hs, -, hended⟩ := hinv.emptied c' k h
    rw [hr] at hs
    cases hs
    rw [hopen] at hended
    cases hended
  · intro ph j hph hholds
    cases hph
    cases hholds
  · intro j p b hph
    cases hph
    refine ⟨rfl, (Room.isSome_find?_insert ..).mpr (Or.inr rfl), fun c' b' _ h => ?_⟩
    obtain ⟨s, hs, hfind⟩ := hinv.admitted c' k peerId b' h
    rw [hr] at hs
    cases hs
    rw [hnew] at hfind
    cases hfind
  · intro j hph
    cases hph

theorem Pod.inv_leave (hinv : w.Inv) {remote : Bool}
    (hc : w.conns.get? c = some (.admitted k peerId remote)) (hr : w.rooms.get? k = some r) :
    Pod.Inv { w with
      rooms := w.rooms.set k (departure r peerId remote).1
      conns := w.conns.set c
        (if (departure r peerId remote).2 then .emptied k else .leaving) } := by
  obtain ⟨s, hs, hfind⟩ := hinv.admitted c k peerId remote hc
  rw [hr] at hs
  cases hs
  obtain ⟨q, hq, -⟩ := Room.isSome_find?.mp hfind
  have hne : r.peers ≠ [] := List.ne_nil_of_mem hq
  have hcurrent := hinv.live k r hr hne
  have hbusy : ∀ c', w.conns.get? c' ≠ some (.emptied k) := by
    intro c' h
    obtain ⟨s, hs, hempty, -⟩ := hinv.emptied c' k h
    rw [hr] at hs
    cases hs
    exact hne hempty
  -- The other participants of the room have other peer ids.
  have hothers : ∀ peer, r.find? peerId = some peer → ∀ c' p b, c' ≠ c →
      w.conns.get? c' = some (.admitted k p b) → ((r.erase peer).find? p).isSome := by
    intro peer hpeer c' p b hc' h
    obtain ⟨s, hs, hfind'⟩ := hinv.admitted c' k p b h
    rw [hr] at hs
    cases hs
    rw [Room.isSome_find?_erase, hfind']
    rintro rfl
    rw [Room.peerId_of_find? hpeer] at h
    exact hc' (hinv.distinct c' c k peerId b remote h hc)
  refine hinv.move (fun c' => Table.get?_set ..) (fun j => Table.get?_set ..) hr
    (fun _ => hcurrent) ?_ (fun c' _ h => absurd h (hbusy c')) ?_ ?_ ?_
  · intro c' p b hc' h
    rcases departure_cases r peerId remote with ⟨-, heq⟩ | ⟨peer, hpeer, heq | ⟨-, -, heq⟩⟩
    · rw [heq]
      obtain ⟨s, hs, hfind'⟩ := hinv.admitted c' k p b h
      rw [hr] at hs
      cases hs
      exact hfind'
    · rw [heq]
      exact hothers peer hpeer c' p b hc' h
    · rw [heq]
      exact hothers peer hpeer c' p b hc' h
  · intro ph j hph hholds
    cases hph
    split_ifs at hholds
    · rw [Phase.holds, decide_eq_true_eq] at hholds
      exact hholds ▸ hcurrent
    · cases hholds
  · intro j p b hph
    split_ifs at hph <;> cases hph
  · intro j hph
    rcases departure_cases r peerId remote with ⟨-, heq⟩ | ⟨peer, -, heq | ⟨-, hempty, heq⟩⟩
    · rw [heq] at hph
      cases hph
    · rw [heq] at hph
      cases hph
    · rw [heq] at hph ⊢
      cases hph
      exact ⟨rfl, hempty, rfl, fun c' _ => hbusy c'⟩

theorem Pod.noneAdmitted (hinv : w.Inv) (hc : w.conns.get? c = some (.emptied k)) :
    (w.conns.toList.any fun x => x.2.isAdmitted) = false := by
  rw [List.any_eq_false]
  rintro ⟨c', ph⟩ hmem hadmitted
  have h := (Table.mem_toList _ _ _).mp hmem
  cases ph with
  | admitted j p b =>
    obtain ⟨s, hs, hfind⟩ := hinv.admitted c' j p b h
    obtain ⟨q, hq, -⟩ := Room.isSome_find?.mp hfind
    have hj := hinv.live j s hs (List.ne_nil_of_mem hq)
    have hk := hinv.held c _ k hc (by simp [Phase.holds])
    rw [hk] at hj
    cases hj
    obtain ⟨s', hs', hempty, -⟩ := hinv.emptied c k hc
    rw [hs] at hs'
    cases hs'
    rw [hempty] at hq
    cases hq
  | fetched j => cases hadmitted
  | checked j => cases hadmitted
  | refused => cases hadmitted
  | emptied j => cases hadmitted
  | leaving => cases hadmitted

theorem Pod.inv_archiveFails (hinv : w.Inv) (hc : w.conns.get? c = some (.emptied k))
    (hr : w.rooms.get? k = some r) :
    Pod.Inv { w with rooms := w.rooms.set k r.clearEnded, conns := w.conns.remove c } := by
  obtain ⟨s, hs, hempty, -⟩ := hinv.emptied c k hc
  rw [hr] at hs
  cases hs
  refine hinv.move (fun c' => Table.get?_remove ..) (fun j => Table.get?_set ..) hr
    (fun hne => absurd hempty hne) ?_ ?_ ?_ ?_ ?_
  · intro c' p b _ h
    obtain ⟨s, hs, hfind⟩ := hinv.admitted c' k p b h
    rw [hr] at hs
    cases hs
    exact hfind
  · exact fun c' hc' h => absurd (hinv.single c' c k h hc) hc'
  · exact fun ph j hph => by cases hph
  · exact fun j p b hph => by cases hph
  · exact fun j hph => by cases hph

theorem Pod.inv_step {a : ConnAction} {w' : Pod} (hinv : w.Inv) (hcond : w.undisturbed a = true)
    (h : connStep w a = some w') : w'.Inv := by
  have hroom : ∀ c k, w.conns.get? c = some (.fetched k) ∨ w.conns.get? c = some (.checked k) →
      w.current = some k ∧ ∃ r, w.rooms.get? k = some r := by
    intro c k hc
    have hk : w.current = some k := by
      rcases hc with hc | hc
      · exact hinv.held c _ k hc (by simp [Phase.holds])
      · exact hinv.held c _ k hc (by simp [Phase.holds])
    exact ⟨hk, hinv.current k hk⟩
  cases a with
  | getOrCreate c =>
    simp only [connStep] at h
    split at h
    · cases h
    · cases h
      obtain ⟨hinv', hcurrent⟩ := Pod.inv_getOrCreate hinv
      obtain ⟨r, hr⟩ := hinv'.current _ hcurrent
      refine hinv'.phase (fun c' => Table.get?_set ..) hr ?_ ?_ ?_
      · intro ph j hph hholds
        cases hph
        rw [Phase.holds, decide_eq_true_eq] at hholds
        exact hholds ▸ hcurrent
      · exact fun j p b hph => by cases hph
      · exact fun j hph => by cases hph
  | check c fails =>
    simp only [connStep] at h
    split at h
    · next k hc =>
      cases h
      obtain ⟨hk, r, hr⟩ := hroom c k (Or.inl hc)
      refine hinv.phase (fun c' => Table.get?_set ..) hr ?_ ?_ ?_
      · intro ph j hph hholds
        cases hph
        split_ifs at hholds
        · cases hholds
        · rw [Phase.holds, decide_eq_true_eq] at hholds
          exact hholds ▸ hk
      · intro j p b hph
        split_ifs at hph <;> cases hph
      · intro j hph
        split_ifs at hph <;> cases hph
    · cases h
  | refuse c cleans =>
    simp only [connStep] at h
    split at h
    · next k hc =>
      cases h
      obtain ⟨-, r, hr⟩ := hroom c k (Or.inr hc)
      split_ifs
      · refine hinv.phase (fun c' => Table.get?_set ..) hr ?_ ?_ ?_
        · intro ph j hph hholds
          cases hph
          cases hholds
        · exact fun j p b hph => by cases hph
        · exact fun j hph => by cases hph
      · exact hinv.forget c
    · cases h
  | addPeer c peerId pubkey version remote =>
    simp only [connStep] at h
    split at h
    · next k hc =>
      split at h
      · cases h
      · next r hr =>
        split_ifs at h with hnew
        split at h
        · cases h
          exact hinv.forget c
        · next r' hadmission =>
          cases h
          exact Pod.inv_admit hinv hc hr (by simpa using hnew) hadmission
    · cases h
  | leave c =>
    simp only [connStep] at h
    split at h
    · next k peerId remote hc =>
      split at h
      · cases h
      · next r hr =>
        cases h
        exact Pod.inv_leave hinv hc hr
    · cases h
  | archive c fails =>
    simp only [connStep] at h
    split at h
    · next k hc =>
      split at h
      · cases h
      · next r hr =>
        split_ifs at h
        · cases h
          exact Pod.inv_archiveFails hinv hc hr
        · cases h
          rw [Pod.noneAdmitted hinv hc, Bool.or_false]
          have hleaving := hinv.phase (c := c) (x := some .leaving)
            (fun c' => Table.get?_set ..) hr (fun ph j hph hholds => by cases hph; cases hholds)
            (fun j p b hph => by cases hph) (fun j hph => by cases hph)
          exact ⟨hleaving.made, hleaving.current, hleaving.live, hleaving.held, hleaving.admitted,
            hleaving.distinct, hleaving.emptied, hleaving.single, hinv.archivedOver⟩
    · cases h
  | cleanup c =>
    have hclean : Pod.Inv { w.cleanupIfEmpty with conns := w.cleanupIfEmpty.conns.remove c } :=
      (Pod.inv_cleanup hinv hcond).forget c
    simp only [connStep] at h
    split at h
    · cases h
      exact hclean
    · cases h
      exact hclean
    · cases h

/-! ## Runs -/

/-- All that are admitted are in the room of the map, and no channel was archived over one of
them. -/
structure Pod.OneRoom (w : Pod) : Prop where
  shared : ∀ c k peerId remote, w.conns.get? c = some (.admitted k peerId remote) →
    w.current = some k ∧ ∃ r, w.rooms.get? k = some r ∧ ∃ p ∈ r.peers, p.peerId = peerId
  archivedOver : w.archivedOver = false

theorem Pod.Inv.oneRoom (hinv : w.Inv) : w.OneRoom where
  shared c k peerId remote h := by
    obtain ⟨r, hr, hfind⟩ := hinv.admitted c k peerId remote h
    obtain ⟨p, hp, hid⟩ := Room.isSome_find?.mp hfind
    exact ⟨hinv.live k r hr (List.ne_nil_of_mem hp), r, hr, p, hp, hid⟩
  archivedOver := hinv.archivedOver

/-- As long as no room is evicted that a handler still holds, the participants stay together. -/
theorem one_room_of_undisturbed {as : List ConnAction} {w : Pod}
    (hmeets : Meets connStep (fun w a => w.undisturbed a = true) Pod.init as)
    (hrun : run connStep Pod.init as = some w) : w.OneRoom :=
  (run_invariant_of_meets Pod.Inv (fun _ _ _ hinv hcond hstep => Pod.inv_step hinv hcond hstep)
    Pod.inv_init hmeets hrun).oneRoom

/-- Two participants, of whom the last one leaves and archives. -/
theorem one_room_of_two : ∃ w, run connStep Pod.init
    [.getOrCreate 0, .getOrCreate 1, .check 0 false, .check 1 false, .addPeer 0 10 "a" 2 none,
      .addPeer 1 11 "b" 2 none, .leave 0, .cleanup 0, .leave 1, .archive 1 false] = some w ∧
    w.OneRoom := by
  have hmeets : Meets connStep (fun w a => w.undisturbed a = true) Pod.init
    [.getOrCreate 0, .getOrCreate 1, .check 0 false, .check 1 false, .addPeer 0 10 "a" 2 none,
      .addPeer 1 11 "b" 2 none, .leave 0, .cleanup 0, .leave 1, .archive 1 false] := by
    decide +kernel
  have hsome : (run connStep Pod.init
    [.getOrCreate 0, .getOrCreate 1, .check 0 false, .check 1 false, .addPeer 0 10 "a" 2 none,
      .addPeer 1 11 "b" 2 none, .leave 0, .cleanup 0, .leave 1, .archive 1 false]).isSome = true := by
    decide +kernel
  obtain ⟨w, hrun⟩ := Option.isSome_iff_exists.mp hsome
  exact ⟨w, hrun, one_room_of_undisturbed hmeets hrun⟩

/-- A refused join evicts the room that another handler waits for. A third one gets a new room. When
the second leaves, the channel is archived over the third. -/
theorem eviction_splits_huddle : ∃ w, run connStep Pod.init
    [.getOrCreate 0, .getOrCreate 1, .check 0 false, .check 1 true, .cleanup 1, .getOrCreate 2,
      .check 2 false, .addPeer 2 12 "c" 2 none, .addPeer 0 10 "a" 2 none, .leave 0,
      .archive 0 false] = some w ∧ ¬ w.OneRoom := by
  have hdemo : ((run connStep Pod.init
    [.getOrCreate 0, .getOrCreate 1, .check 0 false, .check 1 true, .cleanup 1, .getOrCreate 2,
      .check 2 false, .addPeer 2 12 "c" 2 none, .addPeer 0 10 "a" 2 none, .leave 0,
      .archive 0 false]).any fun w => w.archivedOver) = true := by decide +kernel
  obtain ⟨w, hrun, h⟩ := (Option.any_eq_true _ _).mp hdemo
  refine ⟨w, hrun, fun hone => ?_⟩
  rw [hone.archivedOver] at h
  cases h

end Vingilot.Huddle
