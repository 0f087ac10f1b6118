import Vingilot.Lib.Machine
import Vingilot.Huddle.Client

/-!
# Admission to one room (`buzz-relay/src/audio/room.rs`)

Every method that takes the admission lock is one step. Peers are let in at an index
the room allocates or at one an owner imposes, and both ways share one allocator.
-/

namespace Vingilot.Huddle

open Machine

/-! ## Steps -/

inductive RoomCall where
  | addPeer (peerId : Uuid) (pubkey : String) (requestedVersion : UInt8)
  | addPeerAtIndex (peerId : Uuid) (pubkey : String) (requestedVersion peerIndex : UInt8)
  | removePeer (peerId : Uuid)
  | removePeerAndCheckEnded (peerId : Uuid)
  | markEnded
  | clearEnded

def Room.markEnded (r : Room) : Room := { r with guard := { r.guard with ended := true } }

/-- `Uuid::new_v4` gives no id that a peer of the room has. -/
def roomStep (r : Room) : RoomCall → Option Room
  | .addPeer peerId pubkey version =>
    if (r.find? peerId).isSome then none
    else
      match r.addPeer peerId pubkey version with
      | .ok (r', _) => some r'
      | .error _ => some r
  | .addPeerAtIndex peerId pubkey version idx =>
    if (r.find? peerId).isSome then none
    else
      match r.addPeerAtIndex peerId pubkey version idx with
      | .ok r' => some r'
      | .error _ => some r
  | .removePeer peerId => some (r.removePeer peerId)
  | .removePeerAndCheckEnded peerId =>
    match r.removePeerAndCheckEnded peerId with
    | some (r', _, _) => some r'
    | none => some r
  | .markEnded => some r.markEnded
  | .clearEnded => some r.clearEnded

structure RosterMove where
  joined : Option RosterPeer
  left : Option RosterPeer

def moves (r : Room) : RoomCall → List RosterMove
  | .addPeer peerId pubkey version =>
    match r.addPeer peerId pubkey version with
    | .ok (_, idx) => [⟨some ⟨pubkey, idx⟩, none⟩]
    | .error _ => []
  | .addPeerAtIndex peerId pubkey version idx =>
    match r.addPeerAtIndex peerId pubkey version idx with
    | .ok _ => [⟨some ⟨pubkey, idx⟩, none⟩]
    | .error _ => []
  | .removePeer peerId | .removePeerAndCheckEnded peerId =>
    match r.find? peerId with
    | some peer => [⟨none, some peer.toRoster⟩]
    | none => []
  | .markEnded | .clearEnded => []

def admittedVersion (r : Room) : RoomCall → List UInt8
  | .addPeer peerId pubkey version =>
    match r.addPeer peerId pubkey version with
    | .ok _ => [version]
    | .error _ => []
  | .addPeerAtIndex peerId pubkey version idx =>
    match r.addPeerAtIndex peerId pubkey version idx with
    | .ok _ => [version]
    | .error _ => []
  | _ => []

def Imposes (_ : Room) : RoomCall → Prop
  | .addPeerAtIndex _ _ _ idx => idx ≠ 255
  | _ => True

instance (r : Room) (call : RoomCall) : Decidable (Imposes r call) := by
  cases call <;> simp only [Imposes] <;> infer_instance

/-! ## What a step does -/

structure Room.Admits (r : Room) (pubkey : String) (version idx : UInt8) (r' : Room) : Prop where
  running : r.guard.ended = false
  seat : r.peers.length < maxPeersPerRoom
  agrees : ∀ v, r.guard.pinnedVersion = some v → v = version
  pinned : r'.guard.pinnedVersion = some version
  count : r'.peers.length = r.peers.length + 1
  indices : ∀ i ∈ indicesOf r'.roster, i ∈ indicesOf r.roster ∨ i = idx
  free : ∀ i ∈ r'.guard.free, i ∈ r.guard.free
  revision : r'.guard.rosterRevision = r.guard.rosterRevision + 1
  deltas : r'.deltas = r.deltas ++ [⟨r.guard.rosterRevision + 1, some ⟨pubkey, idx⟩, none⟩]

variable {g : AdmissionGuard} {version : UInt8}

theorem AdmissionGuard.pin_pinnedVersion (h : ∀ v, g.pinnedVersion = some v → v = version) :
    (g.pin version).pinnedVersion = some version := by
  cases hpinned : g.pinnedVersion with
  | none => simp [pin, hpinned]
  | some v => simp [pin, hpinned, h v hpinned]

theorem AdmissionGuard.agrees_of_mismatch (h : g.mismatch version = none) :
    ∀ v, g.pinnedVersion = some v → v = version := by
  intro v hv
  unfold mismatch at h
  rw [hv] at h
  by_contra hne
  simp [hne] at h

variable {idx : UInt8}

theorem AdmissionGuard.alloc_frame {g' : AdmissionGuard} (h : g.alloc = some (idx, g')) :
    (∀ i ∈ g'.free, i ∈ g.free) ∧ (idx ∈ g.free ∨ idx ≠ 255) ∧
      g'.pinnedVersion = g.pinnedVersion ∧ g'.rosterRevision = g.rosterRevision := by
  unfold alloc at h
  split at h
  · next i rest hfree =>
    cases h
    refine ⟨fun j hj => ?_, Or.inl ?_, rfl, rfl⟩
    · rw [hfree]
      exact List.mem_cons_of_mem _ hj
    · rw [hfree]
      exact List.mem_cons_self
  · split_ifs at h with hlast
    cases h
    exact ⟨fun j hj => hj, Or.inr hlast, rfl, rfl⟩

variable {r : Room} {peerId : Uuid} {pubkey : String}

theorem Room.mem_indices_insert {i : UInt8}
    (h : i ∈ indicesOf (r.insert g peerId pubkey idx).roster) :
    i ∈ indicesOf r.roster ∨ i = idx := by
  rw [Room.roster_insert, indicesOf, List.map_append, List.mem_append] at h
  exact h.imp_right List.mem_singleton.mp

variable {r' : Room}

theorem Room.admits_addPeer (h : r.addPeer peerId pubkey version = .ok (r', idx)) :
    r.Admits pubkey version idx r' ∧ (idx ∈ r.guard.free ∨ idx ≠ 255) := by
  have hmismatch : r.guard.mismatch version = none := by
    unfold addPeer at h
    split_ifs at h
    cases hm : r.guard.mismatch version with
    | none => rfl
    | some e => simp [hm] at h
  have hagrees := AdmissionGuard.agrees_of_mismatch hmismatch
  obtain ⟨hended, hseat, g, halloc, rfl⟩ := addPeer_eq_ok h
  obtain ⟨hfree, hidx, hpinned, hrevision⟩ := AdmissionGuard.alloc_frame halloc
  refine ⟨⟨hended, hseat, hagrees, ?_, List.length_append, fun i => mem_indices_insert, hfree,
    ?_, ?_⟩, hidx⟩
  · exact AdmissionGuard.pin_pinnedVersion (by rw [hpinned]; exact hagrees)
  · exact congrArg (· + 1) hrevision
  · change r.deltas ++ [⟨g.rosterRevision + 1, _, _⟩] = _
    rw [hrevision]

theorem Room.admits_addPeerAtIndex (h : r.addPeerAtIndex peerId pubkey version idx = .ok r') :
    r.Admits pubkey version idx r' := by
  have hmismatch : r.guard.mismatch version = none := by
    unfold addPeerAtIndex at h
    split_ifs at h
    cases hm : r.guard.mismatch version with
    | none => rfl
    | some e => simp [hm] at h
  have hagrees := AdmissionGuard.agrees_of_mismatch hmismatch
  obtain ⟨hended, hseat, -, rfl⟩ := addPeerAtIndex_eq_ok h
  refine ⟨hended, hseat, hagrees, AdmissionGuard.pin_pinnedVersion hagrees, List.length_append,
    fun i => mem_indices_insert, ?_, rfl, rfl⟩
  exact fun i hi => (List.mem_filter.mp hi).1

structure Room.Releases (r : Room) (peer : AudioPeer) (r' : Room) : Prop where
  present : r.find? peer.peerId = some peer
  peers : r'.peers = (r.erase peer).peers
  deltas : r'.deltas = (r.erase peer).deltas
  guard : ∃ ended, r'.guard = { (r.erase peer).guard with ended := ended }

inductive Room.Steps (r : Room) (call : RoomCall) (r' : Room) : Prop
  | admits (pubkey : String) (version idx : UInt8) (h : r.Admits pubkey version idx r')
      (hindexed : r.Indexed → r'.Indexed) (hidx : idx ∈ r.guard.free ∨ idx ≠ 255)
      (hmoves : moves r call = [⟨some ⟨pubkey, idx⟩, none⟩])
      (hversion : admittedVersion r call = [version])
  | releases (peer : AudioPeer) (h : r.Releases peer r')
      (hmoves : moves r call = [⟨none, some peer.toRoster⟩]) (hversion : admittedVersion r call = [])
  | marks (ended : Bool) (h : r' = { r with guard := { r.guard with ended := ended } })
      (hmoves : moves r call = []) (hversion : admittedVersion r call = [])

variable {call : RoomCall}

theorem Room.steps_unchanged (hmoves : moves r call = []) (hversion : admittedVersion r call = []) :
    r.Steps call r :=
  .marks r.guard.ended rfl hmoves hversion

theorem Room.steps_of_roomStep (himposes : Imposes r call) (h : roomStep r call = some r') :
    r.Steps call r' := by
  cases call with
  | addPeer peerId pubkey version =>
    simp only [roomStep] at h
    split at h
    · cases h
    · rename_i hfresh
      have hid : r.find? peerId = none := by simpa using hfresh
      cases hadd : r.addPeer peerId pubkey version with
      | error e =>
        simp only [hadd, Option.some.injEq] at h
        subst h
        exact steps_unchanged (by simp [moves, hadd]) (by simp [admittedVersion, hadd])
      | ok result =>
        obtain ⟨r'', idx⟩ := result
        simp only [hadd, Option.some.injEq] at h
        subst h
        obtain ⟨hadmits, hidx⟩ := admits_addPeer hadd
        exact .admits pubkey version idx hadmits (fun hi => (hi.addPeer hid hadd).1) hidx
          (by simp [moves, hadd]) (by simp [admittedVersion, hadd])
  | addPeerAtIndex peerId pubkey version idx =>
    simp only [roomStep] at h
    split at h
    · cases h
    · rename_i hfresh
      have hid : r.find? peerId = none := by simpa using hfresh
      cases hadd : r.addPeerAtIndex peerId pubkey version idx with
      | error e =>
        simp only [hadd, Option.some.injEq] at h
        subst h
        exact steps_unchanged (by simp [moves, hadd]) (by simp [admittedVersion, hadd])
      | ok r'' =>
        simp only [hadd, Option.some.injEq] at h
        subst h
        exact .admits pubkey version idx (admits_addPeerAtIndex hadd)
          (fun hi => (hi.addPeerAtIndex hid hadd).1) (Or.inr himposes)
          (by simp [moves, hadd]) (by simp [admittedVersion, hadd])
  | removePeer peerId =>
    cases h
    unfold removePeer
    cases hfind : r.find? peerId with
    | none => exact steps_unchanged (by simp [moves, hfind]) rfl
    | some peer =>
      have hid := peerId_of_find? hfind
      exact .releases peer ⟨hid ▸ hfind, rfl, rfl, _, rfl⟩ (by simp [moves, hfind]) rfl
  | removePeerAndCheckEnded peerId =>
    simp only [roomStep, removePeerAndCheckEnded] at h
    cases hfind : r.find? peerId with
    | none =>
      simp only [hfind, Option.some.injEq] at h
      subst h
      exact steps_unchanged (by simp [moves, hfind]) rfl
    | some peer =>
      have hid := peerId_of_find? hfind
      obtain ⟨ended, rfl⟩ : ∃ ended, r' =
          { r.erase peer with guard := { (r.erase peer).guard with ended := ended } } := by
        by_cases hlast : (!(r.erase peer).guard.ended && (r.erase peer).peers.isEmpty) = true
        · simp only [hfind, if_pos hlast, Option.some.injEq] at h
          exact ⟨true, h.symm⟩
        · simp only [hfind, if_neg hlast, Option.some.injEq] at h
          exact ⟨(r.erase peer).guard.ended, h.symm⟩
      exact .releases peer ⟨hid ▸ hfind, rfl, rfl, ended, rfl⟩ (by simp [moves, hfind]) rfl
  | markEnded =>
    cases h
    exact .marks true rfl rfl rfl
  | clearEnded =>
    cases h
    exact .marks false rfl rfl rfl

/-! ## The invariant -/

def deltasOf (ms : List RosterMove) : List RosterDelta :=
  ms.mapIdx fun i m => ⟨i + 1, m.joined, m.left⟩

theorem deltasOf_append (ms : List RosterMove) (m : RosterMove) :
    deltasOf (ms ++ [m]) = deltasOf ms ++ [⟨ms.length + 1, m.joined, m.left⟩] := by
  simp [deltasOf, List.mapIdx_append]

/-- A room after the moves `ms`, with peers of the versions `vs` let in. -/
structure Room.After (r : Room) (ms : List RosterMove) (vs : List UInt8) : Prop where
  indexed : r.Indexed
  live : ∀ i ∈ indicesOf r.roster, i ≠ 255
  free : ∀ i ∈ r.guard.free, i ≠ 255
  few : r.peers.length ≤ maxPeersPerRoom
  pinned : ∀ v ∈ vs, r.guard.pinnedVersion = some v
  revision : r.guard.rosterRevision = ms.length
  deltas : r.deltas = deltasOf ms

theorem Room.after_new : Room.new.After [] [] where
  indexed := indexed_new
  live i hi := by cases hi
  free i hi := by cases hi
  few := Nat.zero_le _
  pinned v hv := by cases hv
  revision := rfl
  deltas := rfl

variable {ms : List RosterMove} {vs : List UInt8}

theorem Room.After.admits (h : r.After ms vs) (hadmits : r.Admits pubkey version idx r')
    (hindexed : r.Indexed → r'.Indexed) (hidx : idx ∈ r.guard.free ∨ idx ≠ 255) :
    r'.After (ms ++ [⟨some ⟨pubkey, idx⟩, none⟩]) (vs ++ [version]) := by
  have hbelow : idx ≠ 255 := hidx.elim (h.free idx) id
  refine ⟨hindexed h.indexed, fun i hi => ?_, fun i hi => h.free i (hadmits.free i hi), ?_, ?_, ?_,
    ?_⟩
  · rcases hadmits.indices i hi with hi | rfl
    · exact h.live i hi
    · exact hbelow
  · rw [hadmits.count]
    exact hadmits.seat
  · intro v hv
    rcases List.mem_append.mp hv with hv | hv
    · rw [hadmits.pinned, hadmits.agrees v (h.pinned v hv)]
    · rw [hadmits.pinned, List.mem_singleton.mp hv]
  · rw [hadmits.revision, h.revision, List.length_append, List.length_singleton]
  · rw [hadmits.deltas, h.deltas, h.revision, deltasOf_append]

theorem Room.After.releases (h : r.After ms vs) {peer : AudioPeer} (hreleases : r.Releases peer r') :
    r'.After (ms ++ [⟨none, some peer.toRoster⟩]) vs := by
  obtain ⟨ended, hguard⟩ := hreleases.guard
  have herased := (h.indexed.erase hreleases.present).1
  have hroster : r'.roster = (r.erase peer).roster := by
    rw [roster, hreleases.peers, roster]
  have hmem : peer.peerIndex ∈ indicesOf r.roster :=
    mem_indices.mpr ⟨peer, List.mem_of_find?_eq_some hreleases.present, rfl⟩
  refine ⟨⟨?_, ?_, ?_, ?_, ?_, ?_⟩, ?_, ?_, ?_, ?_, ?_, ?_⟩
  · rw [hreleases.peers]
    exact herased.ids
  · rw [hroster]
    exact herased.indices
  · rw [hroster, hguard]
    exact herased.fresh
  · rw [hroster, hguard]
    exact herased.taken
  · rw [hguard]
    exact herased.free
  · rw [hguard]
    exact herased.nodup
  · intro i hi
    rw [hroster, mem_indices] at hi
    obtain ⟨p, hp, rfl⟩ := hi
    exact h.live _ (mem_indices.mpr ⟨p, (List.mem_filter.mp hp).1, rfl⟩)
  · intro i hi
    rw [hguard] at hi
    rcases List.mem_cons.mp hi with rfl | hi
    · exact h.live _ hmem
    · exact h.free i hi
  · rw [hreleases.peers]
    exact (List.length_filter_le _ _).trans h.few
  · intro v hv
    rw [hguard]
    exact h.pinned v hv
  · rw [hguard, List.length_append, List.length_singleton, ← h.revision]
    rfl
  · rw [hreleases.deltas, deltasOf_append, ← h.deltas, ← h.revision]
    rfl

theorem Room.After.step (h : r.After ms vs) (hsteps : r.Steps call r') :
    r'.After (ms ++ moves r call) (vs ++ admittedVersion r call) := by
  cases hsteps with
  | admits pubkey version idx hadmits hindexed hidx hmoves hversion =>
    rw [hmoves, hversion]
    exact h.admits hadmits hindexed hidx
  | releases peer hreleases hmoves hversion =>
    rw [hmoves, hversion, List.append_nil]
    exact h.releases hreleases
  | marks ended heq hmoves hversion =>
    rw [hmoves, hversion, List.append_nil, List.append_nil, heq]
    exact ⟨⟨h.indexed.ids, h.indexed.indices, h.indexed.fresh, h.indexed.taken, h.indexed.free,
      h.indexed.nodup⟩, h.live, h.free, h.few, h.pinned, h.revision, h.deltas⟩

/-! ## Whole runs -/

theorem Room.after_moves {calls : List RoomCall} (hrun : run roomStep Room.new calls = some r)
    (himposes : Meets roomStep Imposes Room.new calls) :
    ∃ vs, r.After (gather roomStep moves Room.new calls) vs := by
  refine run_gather (fun r ms => ∃ vs, r.After ms vs) ?_ ⟨[], after_new⟩ himposes hrun
  rintro r call r' ms ⟨vs, h⟩ hcall hstep
  exact ⟨_, h.step (steps_of_roomStep hcall hstep)⟩

theorem Room.after_versions {calls : List RoomCall} (hrun : run roomStep Room.new calls = some r)
    (himposes : Meets roomStep Imposes Room.new calls) :
    ∃ ms, r.After ms (gather roomStep admittedVersion Room.new calls) := by
  refine run_gather (fun r vs => ∃ ms, r.After ms vs) ?_ ⟨[], after_new⟩ himposes hrun
  rintro r call r' vs ⟨ms, h⟩ hcall hstep
  exact ⟨_, h.step (steps_of_roomStep hcall hstep)⟩

theorem Room.Steps.pinnedVersion (h : r.Steps call r') {v : UInt8}
    (hv : r.guard.pinnedVersion = some v) : r'.guard.pinnedVersion = some v := by
  cases h with
  | admits pubkey version idx hadmits =>
    rw [hadmits.pinned, hadmits.agrees v hv]
  | releases peer hreleases =>
    obtain ⟨ended, hguard⟩ := hreleases.guard
    rw [hguard]
    exact hv
  | marks ended heq =>
    rw [heq]
    exact hv

def RoomCall.IsAdmission : RoomCall → Prop
  | .addPeer .. | .addPeerAtIndex .. => True
  | _ => False

theorem admission_refused (hadmission : call.IsAdmission) (hstep : roomStep r call = some r') :
    (r.guard.ended = true → moves r call = []) ∧ (moves r call = [] → r' = r) := by
  cases call with
  | addPeer peerId pubkey version =>
    simp only [roomStep] at hstep
    split at hstep
    · cases hstep
    cases hadd : r.addPeer peerId pubkey version with
    | error e =>
      simp only [hadd, Option.some.injEq] at hstep
      exact ⟨fun _ => by simp [moves, hadd], fun _ => hstep.symm⟩
    | ok result =>
      have hopen := (Room.addPeer_eq_ok hadd).1
      exact ⟨fun hended => by simp [hopen] at hended, fun hnone => by simp [moves, hadd] at hnone⟩
  | addPeerAtIndex peerId pubkey version idx =>
    simp only [roomStep] at hstep
    split at hstep
    · cases hstep
    cases hadd : r.addPeerAtIndex peerId pubkey version idx with
    | error e =>
      simp only [hadd, Option.some.injEq] at hstep
      exact ⟨fun _ => by simp [moves, hadd], fun _ => hstep.symm⟩
    | ok result =>
      have hopen := (Room.addPeerAtIndex_eq_ok hadd).1
      exact ⟨fun hended => by simp [hopen] at hended, fun hnone => by simp [moves, hadd] at hnone⟩
  | _ => exact hadmission.elim

/-- Whatever calls a room has seen, its live indices are distinct, below 255 and none of
them is free, no free index is there twice, the room has no more than its 25 peers, all
the peers it ever let in have the pinned version, and the deltas are its admissions and
removals in order. -/
theorem room_admission {calls : List RoomCall} {r : Room}
    (hrun : run roomStep Room.new calls = some r)
    (himposes : Meets roomStep Imposes Room.new calls) :
    (indicesOf r.roster).Nodup ∧ (∀ i ∈ indicesOf r.roster, i.toNat ≤ 254 ∧ i ∉ r.guard.free) ∧
    r.guard.free.Nodup ∧ r.peers.length ≤ 25 ∧
    (∀ v ∈ gather roomStep admittedVersion Room.new calls, r.guard.pinnedVersion = some v) ∧
    r.guard.rosterRevision = (gather roomStep moves Room.new calls).length ∧
    r.deltas = deltasOf (gather roomStep moves Room.new calls) ∧
    ∀ call r', Imposes r call → roomStep r call = some r' →
      (∀ v, r.guard.pinnedVersion = some v → r'.guard.pinnedVersion = some v) ∧
      (call.IsAdmission →
        (r.guard.ended = true → moves r call = []) ∧ (moves r call = [] → r' = r)) := by
  obtain ⟨vs, h⟩ := Room.after_moves hrun himposes
  obtain ⟨ms, h'⟩ := Room.after_versions hrun himposes
  refine ⟨h.indexed.indices, fun i hi => ⟨?_, h.indexed.taken i hi⟩, h.indexed.nodup, h.few,
    h'.pinned, h.revision, h.deltas, ?_⟩
  · have hne : i.toNat ≠ 255 := fun heq => h.live i hi (UInt8.toNat_inj.mp heq)
    have hbound := i.toNat_lt
    omega
  · intro call r' hcall hstep
    exact ⟨fun v => (Room.steps_of_roomStep hcall hstep).pinnedVersion,
      fun hadmission => admission_refused hadmission hstep⟩

def demoCalls : List RoomCall :=
  [.addPeer 1 "alice" 2, .addPeerAtIndex 2 "bob" 2 5, .removePeer 1, .addPeer 3 "carol" 2,
    .addPeer 4 "dave" 1, .removePeerAndCheckEnded 2, .markEnded, .addPeer 5 "erin" 2, .clearEnded,
    .addPeerAtIndex 6 "frank" 2 254]

theorem room_admission_demo : ∃ r, run roomStep Room.new demoCalls = some r ∧
    r.guard.rosterRevision = 6 ∧ r.guard.pinnedVersion = some 2 ∧ (indicesOf r.roster).Nodup := by
  have himposes : Meets roomStep Imposes Room.new demoCalls := by decide +kernel
  have hdemo : ((run roomStep Room.new demoCalls).any fun r =>
      r.guard.rosterRevision == 6 && r.guard.pinnedVersion == some 2) = true := by decide +kernel
  obtain ⟨r, hrun, hr⟩ := (Option.any_eq_true _ _).mp hdemo
  rw [Bool.and_eq_true] at hr
  exact ⟨r, hrun, eq_of_beq hr.1, eq_of_beq hr.2, (room_admission hrun himposes).1⟩

end Vingilot.Huddle
