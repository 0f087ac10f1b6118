import Vingilot.Huddle.Mirror

/-!
# The mirrored roster at each revision

Whatever is on the stream continues what the client has, and no frame leaves a gap. So the client
has the owner's roster at its revision, and the last one when nothing is on its way.
-/

namespace Vingilot.Huddle

open Machine

/-! ## Deltas -/

def RosterDelta.Leads (d : RosterDelta) (old new : List RosterPeer) : Prop :=
  (∃ p, d.joined = some p ∧
      ∀ i, pubkeyAt new i = if i = p.peerIndex then some p.pubkey else pubkeyAt old i) ∨
    d.joined = none ∧ ∃ p, d.left = some p ∧
      ∀ i, pubkeyAt new i = if i = p.peerIndex then none else pubkeyAt old i

structure Room.Changes (r r' : Room) : Prop where
  indexed : r'.Indexed
  revision : r'.guard.rosterRevision = r.guard.rosterRevision + 1
  delta : ∃ d, r'.deltas = r.deltas ++ [d] ∧ d.revision = r.guard.rosterRevision + 1 ∧
    d.Leads r.roster r'.roster

variable {r : Room} {peerId : Uuid} {pubkey : String} {idx : UInt8}

theorem Room.Indexed.changes_insert {g : AdmissionGuard}
    (hg : g.rosterRevision = r.guard.rosterRevision)
    (hindexed : (r.insert g peerId pubkey idx).Indexed) (hidx : idx ∉ indicesOf r.roster) :
    r.Changes (r.insert g peerId pubkey idx) := by
  refine ⟨hindexed, congrArg (· + 1) hg, _, rfl, congrArg (· + 1) hg, Or.inl ⟨_, rfl, fun i => ?_⟩⟩
  rw [Room.roster_insert]
  exact pubkeyAt_append (p := ⟨pubkey, idx⟩) hidx i

theorem AdmissionGuard.rosterRevision_alloc {g g' : AdmissionGuard} (h : g.alloc = some (idx, g')) :
    g'.rosterRevision = g.rosterRevision := by
  unfold alloc at h
  split at h
  · cases h
    rfl
  · split_ifs at h
    cases h
    rfl

theorem Room.Indexed.changes_addPeer {r' : Room} (h : r.Indexed) {version : UInt8}
    (hid : r.find? peerId = none) (hadd : r.addPeer peerId pubkey version = .ok (r', idx)) :
    r.Changes r' := by
  obtain ⟨hindexed, hidx⟩ := h.addPeer hid hadd
  obtain ⟨-, -, g, halloc, rfl⟩ := Room.addPeer_eq_ok hadd
  have hrevision : g.rosterRevision = r.guard.rosterRevision :=
    AdmissionGuard.rosterRevision_alloc halloc
  exact changes_insert hrevision hindexed hidx

theorem Room.Indexed.changes_addPeerAtIndex {r' : Room} (h : r.Indexed) {version : UInt8}
    (hid : r.find? peerId = none) (hadd : r.addPeerAtIndex peerId pubkey version idx = .ok r') :
    r.Changes r' := by
  obtain ⟨hindexed, hidx⟩ := h.addPeerAtIndex hid hadd
  obtain ⟨-, -, -, rfl⟩ := Room.addPeerAtIndex_eq_ok hadd
  exact changes_insert rfl hindexed hidx

theorem Room.Indexed.changes_erase (h : r.Indexed) {peer : AudioPeer}
    (hpeer : r.find? peerId = some peer) : r.Changes (r.erase peer) := by
  obtain ⟨hindexed, hleads⟩ := h.erase hpeer
  exact ⟨hindexed, rfl, _, rfl, rfl, Or.inr ⟨rfl, _, rfl, hleads⟩⟩

theorem Room.Indexed.changes_departure (h : r.Indexed) {remote : Bool}
    (hpeer : (r.find? peerId).isNone = false) : r.Changes (departure r peerId remote).1 := by
  rcases departure_cases r peerId remote with ⟨hnone, -⟩ | ⟨peer, hfind, heq | ⟨-, -, heq⟩⟩
  · rw [hnone] at hpeer
    cases hpeer
  · rw [heq]
    exact h.changes_erase hfind
  · rw [heq]
    obtain ⟨hindexed, hrevision, hdelta⟩ := h.changes_erase hfind
    exact ⟨⟨hindexed.ids, hindexed.indices, hindexed.fresh, hindexed.taken, hindexed.free,
      hindexed.nodup⟩, hrevision, hdelta⟩

/-! ## Frames -/

def settle : Nat → List OwnerMsg → Nat
  | c, [] => c
  | _, .peerRegistered _ _ s :: rest => settle s.revision rest
  | _, .rosterSnapshot s :: rest => settle s.revision rest
  | c, .rosterDelta d :: rest => settle (max c d.revision) rest

def Continues : Nat → List OwnerMsg → Prop
  | _, [] => True
  | c, .peerRegistered _ _ s :: rest => c ≤ s.revision ∧ Continues s.revision rest
  | c, .rosterSnapshot s :: rest => c ≤ s.revision ∧ Continues s.revision rest
  | c, .rosterDelta d :: rest => d.revision ≤ c + 1 ∧ Continues (max c d.revision) rest

theorem settle_append (c : Nat) (ms ms' : List OwnerMsg) :
    settle c (ms ++ ms') = settle (settle c ms) ms' := by
  induction ms generalizing c with
  | nil => rfl
  | cons m ms ih => cases m <;> exact ih _

theorem continues_append (c : Nat) (ms ms' : List OwnerMsg) :
    Continues c (ms ++ ms') ↔ Continues c ms ∧ Continues (settle c ms) ms' := by
  induction ms generalizing c with
  | nil => exact ⟨fun h => ⟨trivial, h⟩, fun h => h.2⟩
  | cons m ms ih =>
    cases m with
    | peerRegistered pubkey idx s => exact (and_congr_right fun _ => ih s.revision).trans and_assoc.symm
    | rosterSnapshot s => exact (and_congr_right fun _ => ih s.revision).trans and_assoc.symm
    | rosterDelta d =>
      exact (and_congr_right fun _ => ih (max c d.revision)).trans and_assoc.symm

/-! ## The invariant -/

structure Mirror.Recorded (w : Mirror) : Prop where
  indexed : w.room.Indexed
  revision : w.room.guard.rosterRevision = w.room.deltas.length
  length : w.history.length = w.room.deltas.length + 1
  last : w.history[w.room.deltas.length]? = some w.room.roster
  nodup : ∀ peers ∈ w.history, (indicesOf peers).Nodup
  deltas : ∀ k d, w.room.deltas[k]? = some d → d.revision = k + 1 ∧
    ∃ old new, w.history[k]? = some old ∧ w.history[k + 1]? = some new ∧ d.Leads old new

def OwnerMsg.Tells (w : Mirror) : OwnerMsg → Prop
  | .peerRegistered _ _ s | .rosterSnapshot s =>
    ∃ peers, w.history[s.revision]? = some peers ∧ s.peers.Perm peers
  | .rosterDelta d => ∃ k : Nat, w.room.deltas[k]? = some d

def OwnerMsg.isRegistered : OwnerMsg → Bool
  | .peerRegistered .. => true
  | _ => false

def Mirror.has (w : Mirror) : Nat := (w.client.map (·.revision)).getD 0

def Mirror.reached (w : Mirror) : Nat := settle w.has w.toClient

def Serving.Within (reached total : Nat) : Serving → Prop
  | .idle => True
  | .subscribed p | .admitted p _ _ | .lagged p => p ≤ total
  | .serving p => p ≤ total ∧ p ≤ reached

theorem Serving.Within.mono {s : Serving} {reached reached' total total' : Nat}
    (h : s.Within reached total) (hreached : reached ≤ reached') (htotal : total ≤ total') :
    s.Within reached' total' := by
  cases s with
  | idle => trivial
  | subscribed p => exact Nat.le_trans h htotal
  | admitted p pubkey idx => exact Nat.le_trans h htotal
  | lagged p => exact Nat.le_trans h htotal
  | serving p => exact ⟨Nat.le_trans h.1 htotal, Nat.le_trans h.2 hreached⟩

def Serving.isOpen : Serving → Bool
  | .serving _ | .lagged _ => true
  | _ => false

structure Mirror.Inv (w : Mirror) : Prop extends w.Recorded where
  tells : ∀ m ∈ w.toClient, m.Tells w
  client : ∀ c, w.client = some c →
    ∃ peers, w.history[c.revision]? = some peers ∧ c.map.Agrees peers
  continues : Continues w.has w.toClient
  bounded : w.reached ≤ w.room.deltas.length
  serving : w.serving.Within w.reached w.room.deltas.length
  /-- The registration is the first frame, and the client has nothing before it. -/
  opened : w.client ≠ none → w.serving.isOpen = true ∧ ∀ m ∈ w.toClient, m.isRegistered = false
  unopened : w.client = none →
    (w.serving.isOpen = false ∧ w.toClient = []) ∨ ∃ pubkey idx s rest,
      w.serving.isOpen = true ∧ w.toClient = .peerRegistered pubkey idx s :: rest ∧
        ∀ m ∈ rest, m.isRegistered = false
  ordered : w.forwarded.Pairwise fun x y => x.2.revision ≤ y.2.revision
  latest : ∀ x ∈ w.forwarded, x.2.revision ≤ w.has
  steady : ∀ x ∈ w.forwarded, x.1 ≤ x.2.revision ∧
    (x.2.isDelta = true → x.2.revision = x.1 + 1)

theorem Mirror.inv_init : Mirror.init.Inv where
  indexed := Room.indexed_new
  revision := rfl
  length := rfl
  last := rfl
  nodup peers h := by
    rw [Mirror.init, List.mem_singleton] at h
    rw [h]
    exact List.nodup_nil
  deltas k d h := by cases h
  tells m h := by cases h
  client c h := by cases h
  continues := trivial
  bounded := Nat.le_refl _
  serving := trivial
  opened h := absurd rfl h
  unopened _ := Or.inl ⟨rfl, rfl⟩
  ordered := List.Pairwise.nil
  latest x h := by cases h
  steady x h := by cases h

variable {w : Mirror}

/-! ## The room -/

theorem getElem?_append_of_some {α : Type} {xs ys : List α} {k : Nat} {x : α}
    (h : xs[k]? = some x) : (xs ++ ys)[k]? = some x := by
  rw [List.getElem?_append_left (List.getElem?_eq_some_iff.mp h).1]
  exact h

theorem Mirror.Inv.change (h : w.Inv) (hr : w.room.Changes r) : (w.setRoom r).Inv := by
  obtain ⟨hindexed, hrevision, d, hdeltas, hd, hleads⟩ := hr
  have hold : ∀ {k peers}, w.history[k]? = some peers →
      (w.history ++ [r.roster])[k]? = some peers := getElem?_append_of_some
  have hlength : r.deltas.length = w.room.deltas.length + 1 := by
    rw [hdeltas, List.length_append, List.length_singleton]
  have hnew : (w.history ++ [r.roster])[w.room.deltas.length + 1]? = some r.roster := by
    rw [← h.length, List.getElem?_append_right (Nat.le_refl _), Nat.sub_self]
    rfl
  refine { indexed := hindexed, ordered := h.ordered, latest := h.latest, steady := h.steady,
           opened := h.opened, unopened := h.unopened, continues := h.continues, revision := ?_,
           length := ?_, last := ?_, nodup := ?_, deltas := ?_, tells := ?_, client := ?_,
           bounded := ?_, serving := ?_ }
  · change r.guard.rosterRevision = r.deltas.length
    rw [hrevision, h.revision, hlength]
  · change (w.history ++ [r.roster]).length = r.deltas.length + 1
    rw [List.length_append, h.length, hlength]
    rfl
  · change (w.history ++ [r.roster])[r.deltas.length]? = some r.roster
    rw [hlength]
    exact hnew
  · intro peers hpeers
    rcases List.mem_append.mp hpeers with hpeers | hpeers
    · exact h.nodup peers hpeers
    · rw [List.mem_singleton] at hpeers
      rw [hpeers]
      exact hindexed.indices
  · intro k d' hk
    change r.deltas[k]? = some d' at hk
    change d'.revision = k + 1 ∧ ∃ old new, (w.history ++ [r.roster])[k]? = some old ∧
      (w.history ++ [r.roster])[k + 1]? = some new ∧ _
    rw [hdeltas] at hk
    rcases Nat.lt_or_ge k w.room.deltas.length with hlt | hge
    · rw [List.getElem?_append_left hlt] at hk
      obtain ⟨hd', old, new, hget, hget', hleads'⟩ := h.deltas k d' hk
      exact ⟨hd', old, new, hold hget, hold hget', hleads'⟩
    · rw [List.getElem?_append_right hge, List.getElem?_singleton] at hk
      split_ifs at hk with heq
      cases hk
      obtain rfl : k = w.room.deltas.length := by omega
      exact ⟨hd.trans (congrArg (· + 1) h.revision), _, _, hold h.last, hnew, hleads⟩
  · intro m hm
    have htells := h.tells m hm
    cases m with
    | peerRegistered pubkey idx s =>
      obtain ⟨peers, hpeers, hperm⟩ := htells
      exact ⟨peers, hold hpeers, hperm⟩
    | rosterSnapshot s =>
      obtain ⟨peers, hpeers, hperm⟩ := htells
      exact ⟨peers, hold hpeers, hperm⟩
    | rosterDelta d' =>
      obtain ⟨k, hk⟩ := htells
      refine ⟨k, ?_⟩
      change r.deltas[k]? = some d'
      rw [hdeltas]
      exact getElem?_append_of_some hk
  · intro c hc
    obtain ⟨peers, hpeers, hagrees⟩ := h.client c hc
    exact ⟨peers, hold hpeers, hagrees⟩
  · change w.reached ≤ r.deltas.length
    rw [hlength]
    exact Nat.le_succ_of_le h.bounded
  · change w.serving.Within w.reached r.deltas.length
    rw [hlength]
    exact h.serving.mono (Nat.le_refl _) (Nat.le_succ _)

/-! ## The owner's end -/

theorem Mirror.Recorded.tells_snapshot (h : w.Recorded) :
    ∃ peers, w.history[w.room.rosterSnapshot.revision]? = some peers ∧
      w.room.rosterSnapshot.peers.Perm peers := by
  refine ⟨w.room.roster, ?_, List.perm_insertionSort ..⟩
  rw [Room.rosterSnapshot]
  dsimp only
  rw [h.revision]
  exact h.last

variable {position : Nat}

theorem Mirror.Inv.send (h : w.Inv) {msg : OwnerMsg} (htells : msg.Tells w)
    (hcontinues : Continues w.reached [msg])
    (hbounded : settle w.reached [msg] ≤ w.room.deltas.length)
    (hposition : position ≤ w.room.deltas.length ∧ position ≤ settle w.reached [msg])
    (hkind : msg.isRegistered = !w.serving.isOpen) : (w.send msg position).Inv := by
  have hreached : (w.send msg position).reached = settle w.reached [msg] := settle_append ..
  refine { toRecorded := ⟨h.indexed, h.revision, h.length, h.last, h.nodup, h.deltas⟩,
           client := h.client, ordered := h.ordered, latest := h.latest, steady := h.steady,
           tells := ?_, continues := ?_, bounded := ?_, serving := ?_, opened := ?_,
           unopened := ?_ }
  · intro m hm
    rcases List.mem_append.mp hm with hm | hm
    · exact h.tells m hm
    · rw [List.mem_singleton] at hm
      rw [hm]
      exact htells
  · exact (continues_append ..).mpr ⟨h.continues, hcontinues⟩
  · rw [hreached]
    exact hbounded
  · rw [hreached]
    exact hposition
  · intro hclient
    obtain ⟨hopen, hplain⟩ := h.opened hclient
    refine ⟨rfl, fun m hm => ?_⟩
    rcases List.mem_append.mp hm with hm | hm
    · exact hplain m hm
    · rw [List.mem_singleton] at hm
      rw [hm, hkind, hopen]
      rfl
  · intro hclient
    refine Or.inr ?_
    rcases h.unopened hclient with ⟨hclosed, hnil⟩ | ⟨pubkey, idx, s, rest, hopen, hlist, hplain⟩
    · rw [hclosed] at hkind
      cases msg with
      | peerRegistered pubkey idx s =>
        refine ⟨pubkey, idx, s, [], rfl, ?_, fun m hm => by cases hm⟩
        change w.toClient ++ [_] = _
        rw [hnil]
        rfl
      | rosterSnapshot s => cases hkind
      | rosterDelta d => cases hkind
    · refine ⟨pubkey, idx, s, rest ++ [msg], rfl, ?_, fun m hm => ?_⟩
      · change w.toClient ++ [_] = _
        rw [hlist]
        rfl
      · rcases List.mem_append.mp hm with hm | hm
        · exact hplain m hm
        · rw [List.mem_singleton] at hm
          rw [hm, hkind, hopen]
          rfl

theorem Mirror.Inv.send_snapshot (h : w.Inv) (hposition : position ≤ w.room.deltas.length)
    (hopen : w.serving.isOpen = true) :
    (w.send (.rosterSnapshot w.room.rosterSnapshot) position).Inv := by
  have hrevision : w.room.rosterSnapshot.revision = w.room.deltas.length := h.revision
  refine h.send h.tells_snapshot ⟨?_, trivial⟩ ?_ ⟨hposition, ?_⟩ (by rw [hopen]; rfl)
  · rw [hrevision]
    exact h.bounded
  · exact Nat.le_of_eq hrevision
  · exact hposition.trans (Nat.le_of_eq hrevision.symm)

theorem Mirror.Inv.send_registered (h : w.Inv) (hposition : position ≤ w.room.deltas.length)
    (hclosed : w.serving.isOpen = false) :
    (w.send (.peerRegistered pubkey idx w.room.rosterSnapshot) position).Inv := by
  have hrevision : w.room.rosterSnapshot.revision = w.room.deltas.length := h.revision
  refine h.send h.tells_snapshot ⟨?_, trivial⟩ ?_ ⟨hposition, ?_⟩ (by rw [hclosed]; rfl)
  · rw [hrevision]
    exact h.bounded
  · exact Nat.le_of_eq hrevision
  · exact hposition.trans (Nat.le_of_eq hrevision.symm)

theorem Mirror.Inv.send_delta (h : w.Inv) {d : RosterDelta}
    (hserving : w.serving = .serving position) (hd : w.room.deltas[position]? = some d) :
    (w.send (.rosterDelta d) (position + 1)).Inv := by
  obtain ⟨hrevision, -⟩ := h.deltas position d hd
  have hlt := (List.getElem?_eq_some_iff.mp hd).1
  have hwithin := h.serving
  rw [hserving] at hwithin
  have hreached : position ≤ w.reached := hwithin.2
  have hbounded := h.bounded
  refine h.send ⟨position, hd⟩ ⟨?_, trivial⟩ ?_ ⟨hlt, ?_⟩ (by rw [hserving]; rfl)
  · omega
  · change max w.reached d.revision ≤ _
    omega
  · change position + 1 ≤ max w.reached d.revision
    omega

theorem Mirror.Inv.serve (h : w.Inv) {s : Serving} (hopen : s.isOpen = w.serving.isOpen)
    (hwithin : s.Within w.reached w.room.deltas.length) : Mirror.Inv { w with serving := s } := by
  refine { toRecorded := ⟨h.indexed, h.revision, h.length, h.last, h.nodup, h.deltas⟩,
           client := h.client, ordered := h.ordered, latest := h.latest, steady := h.steady,
           tells := h.tells, continues := h.continues, bounded := h.bounded, serving := hwithin,
           opened := ?_, unopened := ?_ }
  · rw [hopen]
    exact h.opened
  · rw [hopen]
    exact h.unopened

/-! ## The reader -/

theorem PeerMap.agrees_of_perm {peers peers' : List RosterPeer} (hperm : peers.Perm peers')
    (hnodup : (indicesOf peers').Nodup) : (PeerMap.roster peers).Agrees peers' := by
  have hnodup' : (indicesOf peers).Nodup := (hperm.map _).nodup_iff.mpr hnodup
  intro i
  rw [PeerMap.agrees_roster hnodup', pubkeyAt_perm hperm hnodup']

theorem Mirror.Inv.advance (h : w.Inv) {msg : OwnerMsg} {rest : List OwnerMsg} {c : Ingress}
    (resyncs : Nat) {forwarded : List (Nat × Forwarded)} (hlist : w.toClient = msg :: rest)
    (hrevision : c.revision = settle w.has [msg])
    (hagrees : ∃ peers, w.history[c.revision]? = some peers ∧ c.map.Agrees peers)
    (hplain : ∀ m ∈ rest, m.isRegistered = false) (hopen : w.serving.isOpen = true)
    (hordered : forwarded.Pairwise fun x y => x.2.revision ≤ y.2.revision)
    (hlatest : ∀ x ∈ forwarded, x.2.revision ≤ c.revision)
    (hsteady : ∀ x ∈ forwarded, x.1 ≤ x.2.revision ∧
      (x.2.isDelta = true → x.2.revision = x.1 + 1)) :
    Mirror.Inv { w with
      toClient := rest
      client := some c
      resyncs := resyncs
      forwarded := forwarded } := by
  have hsettle : settle c.revision rest = w.reached := by
    rw [hrevision, ← settle_append, List.singleton_append, Mirror.reached, hlist]
  have hcontinues := h.continues
  rw [hlist, ← List.singleton_append, continues_append, ← hrevision] at hcontinues
  refine { toRecorded := ⟨h.indexed, h.revision, h.length, h.last, h.nodup, h.deltas⟩,
           ordered := hordered, latest := hlatest, steady := hsteady,
           continues := hcontinues.2, opened := fun _ => ⟨hopen, hplain⟩,
           unopened := fun hnone => (by cases hnone), tells := ?_, client := ?_, bounded := ?_,
           serving := ?_ }
  · intro m hm
    refine h.tells m ?_
    rw [hlist]
    exact List.mem_cons_of_mem _ hm
  · intro c' hc'
    cases hc'
    exact hagrees
  · exact (Nat.le_of_eq hsettle).trans h.bounded
  · exact h.serving.mono (Nat.le_of_eq hsettle.symm) (Nat.le_refl _)

theorem Mirror.inv_read {w' : Mirror} (h : w.Inv) (hstep : mirrorStep w .read = some w') :
    w'.Inv := by
  simp only [mirrorStep] at hstep
  split at hstep
  · next pubkey idx s rest hlist hclient =>
    cases hstep
    rcases h.unopened hclient with ⟨-, hnil⟩ | ⟨pubkey', idx', s', rest', hopen, hlist', hplain⟩
    · rw [hlist] at hnil
      cases hnil
    · rw [hlist] at hlist'
      cases hlist'
      obtain ⟨peers, hpeers, hperm⟩ := h.tells (.peerRegistered pubkey idx s) (by simp [hlist])
      have hnodup := h.nodup peers (List.mem_of_getElem? hpeers)
      refine h.advance _ hlist rfl ⟨peers, hpeers, PeerMap.agrees_of_perm hperm hnodup⟩ hplain hopen
        h.ordered (fun x hx => ?_) h.steady
      have hlatest := h.latest x hx
      rw [Mirror.has, hclient] at hlatest
      exact hlatest.trans (Nat.zero_le _)
  · next msg rest c hlist hclient =>
    obtain ⟨hopen, hplain⟩ := h.opened (by rw [hclient]; simp)
    have hrest : ∀ m ∈ rest, m.isRegistered = false := by
      intro m hm
      refine hplain m ?_
      rw [hlist]
      exact List.mem_cons_of_mem _ hm
    have hhas : w.has = c.revision := by rw [Mirror.has, hclient]; rfl
    have htells := h.tells msg (by rw [hlist]; exact List.mem_cons_self)
    obtain ⟨old, hold, hagrees⟩ := h.client c hclient
    have hcontinues := h.continues
    rw [hlist, hhas] at hcontinues
    have hlatest : ∀ x ∈ w.forwarded, x.2.revision ≤ c.revision := hhas ▸ h.latest
    -- Whatever is forwarded comes after the rest.
    have hforward : ∀ f : Forwarded, f.revision = settle w.has [msg] → c.revision ≤ f.revision →
        (f.isDelta = true → f.revision = c.revision + 1) →
        (∃ peers, w.history[f.revision]? = some peers ∧ (c.map.onForwarded f).Agrees peers) →
        Mirror.Inv { w with
          toClient := rest
          client := some ⟨f.revision, c.map.onForwarded f⟩
          forwarded := w.forwarded ++ [(c.revision, f)] } := by
      intro f hrevision hle hdelta hnew
      refine h.advance _ hlist hrevision hnew hrest hopen ?_ ?_ ?_
      · rw [List.pairwise_append]
        refine ⟨h.ordered, List.pairwise_singleton .., fun x hx y hy => ?_⟩
        rw [List.mem_singleton] at hy
        rw [hy]
        exact (hlatest x hx).trans hle
      · intro x hx
        rcases List.mem_append.mp hx with hx | hx
        · exact (hlatest x hx).trans hle
        · rw [List.mem_singleton] at hx
          rw [hx]
      · intro x hx
        rcases List.mem_append.mp hx with hx | hx
        · exact h.steady x hx
        · rw [List.mem_singleton] at hx
          rw [hx]
          exact ⟨hle, hdelta⟩
    cases msg with
    | peerRegistered pubkey idx s =>
      have hfalse := hplain (.peerRegistered pubkey idx s) (by rw [hlist]; exact List.mem_cons_self)
      cases hfalse
    | rosterSnapshot s =>
      cases hstep
      obtain ⟨peers, hpeers, hperm⟩ := htells
      have hnodup := h.nodup peers (List.mem_of_getElem? hpeers)
      exact hforward (.roster s.revision s.peers) rfl hcontinues.1 (by simp [Forwarded.isDelta])
        ⟨peers, hpeers, PeerMap.agrees_of_perm hperm hnodup⟩
    | rosterDelta d =>
      obtain ⟨k, hk⟩ := htells
      obtain ⟨hd, old', new, hold', hnew, hleads⟩ := h.deltas k d hk
      have hbound : d.revision ≤ c.revision + 1 := hcontinues.1
      simp only [readOwnerControl] at hstep
      by_cases hnext : d.revision = c.revision + 1
      · -- The delta continues what the client has.
        obtain rfl : k = c.revision := by omega
        rw [hold] at hold'
        cases hold'
        have hsettle : d.revision = settle w.has [.rosterDelta d] := by
          rw [hhas]
          change d.revision = max c.revision d.revision
          omega
        have hle : c.revision ≤ d.revision := by omega
        have hnew' : w.history[d.revision]? = some new := by rw [hnext]; exact hnew
        rw [if_pos hnext] at hstep
        rcases hleads with ⟨p, hjoined, hat⟩ | ⟨hjoined, p, hleft, hat⟩
        · rw [hjoined] at hstep
          cases hstep
          refine hforward (.joined d.revision p) hsettle hle (fun _ => hnext) ⟨new, hnew', ?_⟩
          intro i
          change (c.map.set p.peerIndex p.pubkey).get? i = _
          rw [Table.get?_set, hat, hagrees i]
        · rw [hjoined, hleft] at hstep
          cases hstep
          refine hforward (.left d.revision p) hsettle hle (fun _ => hnext) ⟨new, hnew', ?_⟩
          intro i
          change (c.map.remove p.peerIndex).get? i = _
          rw [Table.get?_remove, hat, hagrees i]
      · have hle : d.revision ≤ c.revision := by omega
        rw [if_neg hnext, if_pos hle] at hstep
        cases hstep
        have hsettle : c.revision = settle w.has [.rosterDelta d] := by
          rw [hhas]
          change c.revision = max c.revision d.revision
          omega
        have hignored := h.advance w.resyncs hlist hsettle ⟨old, hold, hagrees⟩ hrest
          hopen h.ordered hlatest h.steady
        rw [← hclient] at hignored
        exact hignored
  · cases hstep

theorem Mirror.inv_step {w w' : Mirror} {a : MirrorAction} (h : w.Inv)
    (hstep : mirrorStep w a = some w') : w'.Inv := by
  cases a with
  | join peerId pubkey version =>
    simp only [mirrorStep] at hstep
    split_ifs at hstep with hid
    split at hstep
    · cases hstep
      exact h
    · next r idx hadd =>
      cases hstep
      exact h.change (h.indexed.changes_addPeer (by simpa using hid) hadd)
  | joinAt peerId pubkey version peerIndex =>
    simp only [mirrorStep] at hstep
    split_ifs at hstep with hid
    split at hstep
    · cases hstep
      exact h
    · next r hadd =>
      cases hstep
      exact h.change (h.indexed.changes_addPeerAtIndex (by simpa using hid) hadd)
  | leave peerId checkEnded =>
    simp only [mirrorStep] at hstep
    split_ifs at hstep with hid
    cases hstep
    exact h.change (h.indexed.changes_departure (Bool.eq_false_iff.mpr hid))
  | clearEnded =>
    cases hstep
    exact { h with
      indexed := ⟨h.indexed.ids, h.indexed.indices, h.indexed.fresh, h.indexed.taken,
        h.indexed.free, h.indexed.nodup⟩
      tells := h.tells }
  | subscribe =>
    simp only [mirrorStep] at hstep
    split at hstep
    · next hidle =>
      cases hstep
      exact h.serve (by rw [hidle]; rfl) (Nat.le_refl _)
    · cases hstep
  | addPeer peerId pubkey version =>
    simp only [mirrorStep] at hstep
    split at hstep
    · next position hsubscribed =>
      have hwithin := h.serving
      rw [hsubscribed] at hwithin
      split_ifs at hstep with hid
      split at hstep
      · cases hstep
        exact h.serve (by rw [hsubscribed]; rfl) trivial
      · next r idx hadd =>
        cases hstep
        have hchange := h.change (h.indexed.changes_addPeer (by simpa using hid) hadd)
        refine hchange.serve ?_ ?_
        · rw [Mirror.setRoom, hsubscribed]
          rfl
        · have hlater := hchange.serving
          rw [Mirror.setRoom, hsubscribed] at hlater
          exact hlater
    · cases hstep
  | reply =>
    simp only [mirrorStep] at hstep
    split at hstep
    · next position pubkey peerIndex hadmitted =>
      have hwithin := h.serving
      rw [hadmitted] at hwithin
      cases hstep
      exact h.send_registered hwithin (by rw [hadmitted]; rfl)
    · cases hstep
  | delta =>
    simp only [mirrorStep] at hstep
    split at hstep
    · next position hserving =>
      split at hstep
      · cases hstep
      · next d hd =>
        cases hstep
        exact h.send_delta hserving hd
    · cases hstep
  | lag missed =>
    simp only [mirrorStep] at hstep
    split at hstep
    · next position hserving =>
      split_ifs at hstep with hle
      cases hstep
      exact h.serve (by rw [hserving]; rfl) hle
    · cases hstep
  | snapshot =>
    simp only [mirrorStep] at hstep
    split at hstep
    · next position hlagged =>
      have hwithin := h.serving
      rw [hlagged] at hwithin
      cases hstep
      exact h.send_snapshot hwithin (by rw [hlagged]; rfl)
    · cases hstep
  | answer =>
    simp only [mirrorStep] at hstep
    split at hstep
    · next position hserving =>
      have hwithin := h.serving
      rw [hserving] at hwithin
      split_ifs at hstep
      cases hstep
      have hsent := h.send_snapshot hwithin.1 (by rw [hserving]; rfl)
      exact { hsent with tells := hsent.tells }
    · cases hstep
  | read => exact Mirror.inv_read h hstep

/-! ## Runs -/

/-- What holds of a client on another pod in every state. `history` is indexed by the revision. -/
structure Mirror.Follows (w : Mirror) : Prop where
  current : w.history[w.room.guard.rosterRevision]? = some w.room.roster
  atRevision : ∀ c, w.client = some c →
    ∃ peers, w.history[c.revision]? = some peers ∧ c.map.Agrees peers
  ordered : w.forwarded.Pairwise fun x y => x.2.revision ≤ y.2.revision
  /-- A delta is forwarded only on the revision before it. -/
  gapless : ∀ x ∈ w.forwarded, x.2.isDelta = true → x.2.revision = x.1 + 1
  drained : ∀ c, w.client = some c → w.toClient = [] →
    w.serving = .serving w.room.deltas.length →
    c.revision = w.room.guard.rosterRevision ∧ c.map.Agrees w.room.roster

theorem Mirror.Inv.follows (h : w.Inv) : w.Follows := by
  refine ⟨?_, h.client, h.ordered, fun x hx => (h.steady x hx).2, fun c hc hnil hserving => ?_⟩
  · rw [h.revision]
    exact h.last
  · have hwithin := h.serving
    have hbounded := h.bounded
    rw [hserving] at hwithin
    have hreached : w.reached = c.revision := by
      rw [Mirror.reached, hnil, Mirror.has, hc]
      rfl
    have hsame : c.revision = w.room.deltas.length := by
      have hle : w.room.deltas.length ≤ w.reached := hwithin.2
      omega
    obtain ⟨peers, hpeers, hagrees⟩ := h.client c hc
    rw [hsame, h.last] at hpeers
    cases hpeers
    exact ⟨hsame.trans h.revision.symm, hagrees⟩

/-- A client on another pod follows the owner's roster, in whatever order things happen. -/
theorem mirror_follows {as : List MirrorAction} {w : Mirror}
    (hrun : run mirrorStep Mirror.init as = some w) : w.Follows :=
  (run_invariant Mirror.Inv (fun _ _ _ hinv hstep => Mirror.inv_step hinv hstep) Mirror.inv_init
    hrun).follows

def demoMirror : List MirrorAction :=
  [.join 10 "a" 2, .subscribe, .join 11 "b" 2, .addPeer 12 "c" 2, .leave 10 true, .reply, .read,
    .delta, .read, .join 13 "d" 2, .lag 2, .leave 11 true, .snapshot, .read, .delta, .read,
    .delta, .read]

theorem mirror_follows_over_lag : ∃ w c, run mirrorStep Mirror.init demoMirror = some w ∧
    w.client = some c ∧ c.revision = 6 ∧ c.map.Agrees w.room.roster := by
  have hdemo : ((run mirrorStep Mirror.init demoMirror).any fun w =>
      w.toClient.isEmpty && decide (w.serving = .serving w.room.deltas.length) &&
        w.client.any fun c => c.revision = 6) = true := by decide +kernel
  obtain ⟨w, hrun, h⟩ := (Option.any_eq_true _ _).mp hdemo
  rw [Bool.and_eq_true, Bool.and_eq_true, List.isEmpty_iff, decide_eq_true_eq] at h
  obtain ⟨⟨hnil, hserving⟩, hclient⟩ := h
  obtain ⟨c, hc, hrevision⟩ := (Option.any_eq_true _ _).mp hclient
  exact ⟨w, c, hrun, hc, of_decide_eq_true hrevision,
    ((mirror_follows hrun).drained c hc hnil hserving).2⟩

end Vingilot.Huddle
