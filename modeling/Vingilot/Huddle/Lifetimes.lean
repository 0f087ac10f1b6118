import Vingilot.Huddle.OneRoom
import Vingilot.Huddle.Watchers

/-!
# How long a huddle is owned

A lease is acquired before the join is accepted, and it is given back when a local participant
empties the room. As long as no acquirer is refused and the last participant is a local one, whose
channel is archived, no lease and no entry is left without participants.
-/

namespace Vingilot.Huddle

open Machine

/-! ## Rooms -/

variable {a : ConnAction} {c : Nat}

namespace Pod

def live (w : Pod) : Option Room := w.current.bind w.rooms.get?

def peopled (w : Pod) : Bool := w.live.any fun r => !r.isEmpty

def Made (w : Pod) : Prop := ∀ k, w.current = some k → w.rooms.get? k ≠ none

variable {w w' : Pod}

theorem made_init : Pod.init.Made := fun _ h => by cases h

theorem peopled_iff : w.peopled = true ↔
    ∃ k r, w.current = some k ∧ w.rooms.get? k = some r ∧ r.peers ≠ [] := by
  unfold peopled live Room.isEmpty
  rw [Option.any_eq_true]
  constructor
  · rintro ⟨r, hr, hne⟩
    obtain ⟨k, hk, hget⟩ := Option.bind_eq_some_iff.mp hr
    refine ⟨k, r, hk, hget, ?_⟩
    rintro hempty
    rw [hempty] at hne
    cases hne
  · rintro ⟨k, r, hk, hget, hne⟩
    refine ⟨r, Option.bind_eq_some_iff.mpr ⟨k, hk, hget⟩, ?_⟩
    cases hpeers : r.peers with
    | nil => exact absurd hpeers hne
    | cons p ps => rfl

theorem evicts_or_peopled (hmade : w.Made) (hcurrent : w.current ≠ none) :
    w.evicts = true ∨ w.peopled = true := by
  obtain ⟨k, hk⟩ := Option.ne_none_iff_exists'.mp hcurrent
  obtain ⟨r, hr⟩ := Option.ne_none_iff_exists'.mp (hmade k hk)
  unfold evicts peopled live
  rw [hk, Option.bind_some, hr]
  cases hempty : r.isEmpty with
  | true => exact Or.inl hempty
  | false =>
    refine Or.inr ?_
    rw [Option.any_some, hempty]
    rfl

def Grows (w w' : Pod) : Prop :=
  (w'.Made) ∧ (w.current ≠ none → w'.current ≠ none) ∧ (w.peopled = true → w'.peopled = true)

theorem grows_of_rooms (hmade : w.Made) (hcurrent : w'.current = w.current)
    (hrooms : ∀ k r, w.rooms.get? k = some r →
      ∃ r', w'.rooms.get? k = some r' ∧ (r.peers ≠ [] → r'.peers ≠ [])) : w.Grows w' := by
  refine ⟨fun k hk => ?_, fun h => hcurrent ▸ h, fun h => ?_⟩
  · rw [hcurrent] at hk
    obtain ⟨r, hr⟩ := Option.ne_none_iff_exists'.mp (hmade k hk)
    obtain ⟨r', hr', -⟩ := hrooms k r hr
    rw [hr']
    exact fun h => by cases h
  · obtain ⟨k, r, hk, hr, hne⟩ := peopled_iff.mp h
    obtain ⟨r', hr', hpeers⟩ := hrooms k r hr
    exact peopled_iff.mpr ⟨k, r', hcurrent.trans hk, hr', hpeers hne⟩

theorem grows_set {k : Nat} {r r' : Room} (hmade : w.Made) (hcurrent : w'.current = w.current)
    (hrooms : w'.rooms = w.rooms.set k r') (hr : w.rooms.get? k = some r)
    (hpeers : r.peers ≠ [] → r'.peers ≠ []) : w.Grows w' := by
  refine grows_of_rooms hmade hcurrent fun j s hs => ?_
  rw [hrooms, Table.get?_set]
  split_ifs with hj
  · rw [hj, hr] at hs
    cases hs
    exact ⟨r', rfl, hpeers⟩
  · exact ⟨s, hs, id⟩

theorem Grows.refl (hmade : w.Made) : w.Grows w := ⟨hmade, id, id⟩

theorem grows_getOrCreate (hmade : w.Made) :
    w.Grows w.getOrCreate.1 ∧ w.getOrCreate.1.current = some w.getOrCreate.2 := by
  unfold getOrCreate
  cases hcurrent : w.current with
  | some k => exact ⟨Grows.refl hmade, hcurrent⟩
  | none =>
    refine ⟨⟨fun k hk => ?_, fun h => absurd hcurrent h, fun h => ?_⟩, rfl⟩
    · cases hk
      rw [Table.get?_set, if_pos rfl]
      exact fun h => by cases h
    · obtain ⟨k, -, hk, -⟩ := peopled_iff.mp h
      rw [hcurrent] at hk
      cases hk

theorem grows_conn (hmade : w.Made) (hstep : connStep w a = some w') (hleave : ∀ c, a ≠ .leave c)
    (hcleanup : ∀ c, a ≠ .cleanup c) : w.Grows w' := by
  cases a with
  | getOrCreate c =>
    simp only [connStep] at hstep
    split at hstep
    · cases hstep
    · cases hstep
      exact (grows_getOrCreate hmade).1
  | check c fails =>
    simp only [connStep] at hstep
    split at hstep
    · cases hstep
      exact Grows.refl hmade
    · cases hstep
  | refuse c cleans =>
    simp only [connStep] at hstep
    split at hstep
    · cases hstep
      exact Grows.refl hmade
    · cases hstep
  | addPeer c peerId pubkey version remote =>
    simp only [connStep] at hstep
    split at hstep
    · next k hc =>
      split at hstep
      · cases hstep
      · next r hr =>
        split_ifs at hstep
        split at hstep
        · cases hstep
          exact Grows.refl hmade
        · next r' hadmission =>
          cases hstep
          obtain ⟨-, g, idx, rfl⟩ := admission_eq_ok hadmission
          refine grows_set hmade rfl rfl hr fun _ => ?_
          exact List.append_ne_nil_of_right_ne_nil _ (List.cons_ne_nil _ _)
    · cases hstep
  | leave c => exact absurd rfl (hleave c)
  | archive c fails =>
    simp only [connStep] at hstep
    split at hstep
    · next k hc =>
      split at hstep
      · cases hstep
      · next r hr =>
        split_ifs at hstep
        · cases hstep
          exact grows_set hmade rfl rfl hr id
        · cases hstep
          exact Grows.refl hmade
    · cases hstep
  | cleanup c => exact absurd rfl (hcleanup c)

theorem made_leave (hmade : w.Made) (hstep : connStep w (.leave c) = some w') :
    w'.Made ∧ w'.current = w.current := by
  simp only [connStep] at hstep
  split at hstep
  · split at hstep
    · cases hstep
    · cases hstep
      refine ⟨fun k hk => ?_, rfl⟩
      rw [Table.get?_set]
      split_ifs
      · exact fun h => by cases h
      · exact hmade k hk
  · cases hstep

theorem cleanup_cases (hmade : w.Made) (hstep : connStep w (.cleanup c) = some w') :
    (w.evicts = true ∧ w'.Made) ∨ (w.evicts = false ∧ w.Grows w') := by
  have hcases : ∀ conns : Table Nat Phase,
      (w.evicts = true ∧ Made { w.cleanupIfEmpty with conns := conns }) ∨
        (w.evicts = false ∧ w.Grows { w.cleanupIfEmpty with conns := conns }) := by
    intro conns
    unfold cleanupIfEmpty
    cases hevicts : w.evicts with
    | true => exact Or.inl ⟨rfl, fun k hk => by cases hk⟩
    | false => exact Or.inr ⟨rfl, Grows.refl hmade⟩
  simp only [connStep] at hstep
  split at hstep
  · cases hstep
    exact hcases _
  · cases hstep
    exact hcases _
  · cases hstep

end Pod

def Room.admits (r : Room) (version : UInt8) : Bool :=
  !r.guard.ended && decide (r.peers.length < maxPeersPerRoom) &&
    (r.guard.mismatch version).isNone && r.guard.alloc.isSome

theorem Room.addPeer_of_admits {r : Room} {version : UInt8} (h : r.admits version = true)
    (peerId : Uuid) (pubkey : String) : ∃ x, r.addPeer peerId pubkey version = .ok x := by
  simp only [admits, Bool.and_eq_true, Bool.not_eq_true', decide_eq_true_eq, Option.isNone_iff_eq_none]
    at h
  obtain ⟨⟨⟨hended, hspace⟩, hversion⟩, halloc⟩ := h
  obtain ⟨⟨idx, g⟩, hidx⟩ := Option.isSome_iff_exists.mp halloc
  unfold addPeer
  rw [hended, if_neg Bool.false_ne_true, if_neg (Nat.not_le.mpr hspace), hversion, hidx]
  exact ⟨_, rfl⟩

/-! ## The condition -/

def Token.lease : Token → HuddleLease
  | .lost lease | .draining lease | .cancel lease | .idle lease => lease

def JoinPhase.isBusy : JoinPhase → Bool
  | .leaving _ | .emptied _ | .resolved _ true | .admitted _ true => true
  | _ => false

variable {ph : JoinPhase} {l : HuddleLease} {key : HuddleKey} {pod : Pod}

namespace OwnerPod

def entryLease (w : OwnerPod) (key : HuddleKey) : Option HuddleLease :=
  ((w.owners.entries.get? key.2).map fun entry => entry.lost.lease).filter fun lease =>
    lease.key = key

def accepts (pod : Pod) : ConnAction → Bool
  | .getOrCreate _ => true
  | .check _ fails => !pod.archived && !fails
  | .addPeer c _ _ version _ =>
    match pod.conns.get? c with
    | some (.checked k) => (pod.rooms.get? k).any fun r => r.admits version
    | _ => true
  | _ => false

/-- An acquirer is not refused, and the room of the map has somebody when he attaches. The channel
is archived, and only a leaver of the entry's own lease evicts the room, while there is an entry. No
client of another pod is the last one then. Redis releases what the pod still holds. -/
def keepsRoom (w : OwnerPod) : OwnerAction → Bool
  | .room a =>
    match w.joins.get? a.conn with
    | some (.resolved lease true) => accepts (w.huddle lease.key) a
    | some (.refused key) => !(w.huddle key).evicts || (w.entryLease key).isNone
    | some (.leaving lease) =>
      match a with
      | .archive _ fails => !fails || (w.entryLease lease.key).isNone
      | _ => !(w.huddle lease.key).evicts || (w.entryLease lease.key).all fun l => l = lease
    | _ => true
  | .attach c =>
    match w.joins.get? c with
    | some (.admitted lease true) => w.owners.isDraining ||
        (w.owners.entries.get? lease.sessionId).isSome || (w.huddle lease.key).peopled
    | _ => true
  | .renewFails lease released => released || !w.holds lease
  | .stop lease fails => !fails || !w.holds lease
  | .unregister key peerId => (w.entryLease key).isNone || (w.huddle key).live.all fun r =>
      r.isEmpty || r.peers.any fun p => p.peerId ≠ peerId
  | _ => true

/-! ## The invariant -/

def Staffed (w : OwnerPod) (lease : HuddleLease) : Prop :=
  (w.huddle lease.key).peopled = true ∨
    ((w.huddle lease.key).current ≠ none ∧
      ∃ c lease', w.joins.get? c = some (.leaving lease') ∧ lease'.key = lease.key) ∨
    ∃ c, w.joins.get? c = some (.emptied lease)

def Carried (w : OwnerPod) (lease : HuddleLease) : Prop :=
  (∃ c ph, w.joins.get? c = some ph ∧ ph.minted = some lease) ∨
    (w.owners.renewers.get? lease = some true ∧ (.cancel lease ∈ w.owners.cancelled ∨
      w.owners.entries.get? lease.sessionId = some (HuddleOwnerRegistry.entryOf lease)))

structure Kept (w : OwnerPod) : Prop where
  made : ∀ key, (w.huddle key).Made
  entries : ∀ sessionId entry, w.owners.entries.get? sessionId = some entry →
    ∃ lease, lease.sessionId = sessionId ∧ entry = HuddleOwnerRegistry.entryOf lease ∧
      w.Staffed lease
  leases : ∀ key generation, w.leases.get? key = some (generation, true) →
    w.Carried ⟨key.1, key.2, generation⟩

theorem kept_init : init.Kept where
  made key := Pod.made_init
  entries sessionId entry h := by cases h
  leases key generation h := by cases h

variable {w w' : OwnerPod} {lease : HuddleLease}

theorem Staffed.mono (h : w.Staffed lease)
    (hgrows : (w.huddle lease.key).Grows (w'.huddle lease.key))
    (hleaving : ∀ c l, w.joins.get? c = some (.leaving l) → l.key = lease.key →
      w'.joins.get? c = some (.leaving l))
    (hemptied : ∀ c, w.joins.get? c = some (.emptied lease) →
      w'.joins.get? c = some (.emptied lease)) : w'.Staffed lease := by
  obtain ⟨-, hcurrent, hpeopled⟩ := hgrows
  rcases h with h | ⟨h, c, l, hc, hl⟩ | ⟨c, hc⟩
  · exact Or.inl (hpeopled h)
  · exact Or.inr (Or.inl ⟨hcurrent h, c, l, hleaving c l hc hl, hl⟩)
  · exact Or.inr (Or.inr ⟨c, hemptied c hc⟩)

theorem Carried.mono (h : w.Carried lease)
    (hminted : ∀ c ph, w.joins.get? c = some ph → ph.minted = some lease → w'.Carried lease)
    (hrenewers : w.owners.renewers.get? lease = some true →
      w'.owners.renewers.get? lease = some true)
    (hcancelled : ∀ t ∈ w.owners.cancelled, t ∈ w'.owners.cancelled)
    (hentries : w.owners.entries.get? lease.sessionId = some (HuddleOwnerRegistry.entryOf lease) →
      w'.owners.entries.get? lease.sessionId = some (HuddleOwnerRegistry.entryOf lease) ∨
        .cancel lease ∈ w'.owners.cancelled) : w'.Carried lease := by
  rcases h with ⟨c, ph, hc, hph⟩ | ⟨hrunning, hmem | hentry⟩
  · exact hminted c ph hc hph
  · exact Or.inr ⟨hrenewers hrunning, Or.inl (hcancelled _ hmem)⟩
  · exact Or.inr ⟨hrenewers hrunning, (hentries hentry).symm⟩

theorem Kept.pass (h : w.Kept) {x : Option JoinPhase} {joins : Table Nat JoinPhase}
    (hc : w.joins.get? c = some ph) (hidle : ph.isBusy = false)
    (hjoin : ∀ c', joins.get? c' = if c' = c then x else w.joins.get? c') :
    Kept { w with joins := joins } := by
  have hkeep : ∀ c' ph', w.joins.get? c' = some ph' → ph'.isBusy = true →
      joins.get? c' = some ph' := by
    intro c' ph' hc' hbusy
    have hne : c' ≠ c := by
      rintro rfl
      rw [hc] at hc'
      cases hc'
      rw [hidle] at hbusy
      cases hbusy
    rw [hjoin, if_neg hne]
    exact hc'
  refine ⟨h.made, fun sessionId entry hentry => ?_, fun key generation hlease => ?_⟩
  · obtain ⟨lease, hl, heq, hstaffed⟩ := h.entries sessionId entry hentry
    refine ⟨lease, hl, heq, hstaffed.mono (Pod.Grows.refl (h.made _)) ?_ ?_⟩
    · exact fun c' l hc' _ => hkeep c' _ hc' rfl
    · exact fun c' hc' => hkeep c' _ hc' rfl
  · refine (h.leases key generation hlease).mono (fun c' ph' hc' hph' => ?_) id (fun t ht => ht)
      Or.inl
    refine Or.inl ⟨c', ph', hkeep c' ph' hc' ?_, hph'⟩
    cases ph' with
    | resolved l acquired => cases acquired <;> cases hph'; rfl
    | admitted l acquired => cases acquired <;> cases hph'; rfl
    | _ => cases hph'

theorem Kept.enter (h : w.Kept) (hc : w.joins.get? c = none) : (w.setJoin c ph).Kept := by
  have hkeep : ∀ c' ph', w.joins.get? c' = some ph' →
      (w.setJoin c ph).joins.get? c' = some ph' := by
    intro c' ph' hc'
    have hne : c' ≠ c := by
      rintro rfl
      rw [hc] at hc'
      cases hc'
    exact (Table.get?_set ..).trans ((if_neg hne).trans hc')
  refine ⟨h.made, fun sessionId entry hentry => ?_, fun key generation hlease => ?_⟩
  · obtain ⟨lease, hl, heq, hstaffed⟩ := h.entries sessionId entry hentry
    exact ⟨lease, hl, heq, hstaffed.mono (Pod.Grows.refl (h.made _)) (fun c' l hc' _ => hkeep c' _ hc')
      (fun c' => hkeep c' _)⟩
  · exact (h.leases key generation hlease).mono
      (fun c' ph' hc' hph' => Or.inl ⟨c', ph', hkeep c' ph' hc', hph'⟩) id (fun t ht => ht) Or.inl

theorem Kept.registry (h : w.Kept) {owners : HuddleOwnerRegistry}
    (hentries : ∀ sessionId entry, owners.entries.get? sessionId = some entry →
      w.owners.entries.get? sessionId = some entry ∨
        ∃ l, l.sessionId = sessionId ∧ entry = HuddleOwnerRegistry.entryOf l ∧ w.Staffed l)
    (hcancelled : ∀ t ∈ w.owners.cancelled, t ∈ owners.cancelled)
    (hrenewers : ∀ l : HuddleLease, w.leases.get? l.key = some (l.generation, true) →
      w.owners.renewers.get? l = some true → owners.renewers.get? l = some true)
    (hkept : ∀ l : HuddleLease,
      w.owners.entries.get? l.sessionId = some (HuddleOwnerRegistry.entryOf l) →
      owners.entries.get? l.sessionId = some (HuddleOwnerRegistry.entryOf l) ∨
        .cancel l ∈ owners.cancelled) : Kept { w with owners := owners } := by
  refine ⟨h.made, fun sessionId entry hentry => ?_, fun key generation hlease => ?_⟩
  · rcases hentries sessionId entry hentry with hold | hnew
    · exact h.entries sessionId entry hold
    · exact hnew
  · refine (h.leases key generation hlease).mono ?_ ?_ hcancelled ?_
    · exact fun c ph hc hph => Or.inl ⟨c, ph, hc, hph⟩
    · exact hrenewers ⟨key.1, key.2, generation⟩ hlease
    · exact hkept ⟨key.1, key.2, generation⟩

theorem Kept.retract (h : w.Kept) (sessionId : Uuid) (generation : Nat)
    (tokens : HuddleOwnerEntry → List Token) (htokens : ∀ entry, entry.cancel ∈ tokens entry) :
    Kept { w with owners := w.owners.retract sessionId generation tokens } := by
  refine h.registry ?_ (HuddleOwnerRegistry.cancelled_retract _ _ _) ?_ ?_
  · intro s entry hentry
    refine Or.inl ?_
    unfold HuddleOwnerRegistry.retract at hentry
    split at hentry
    · exact hentry
    · split_ifs at hentry
      · rw [Table.get?_remove] at hentry
        split_ifs at hentry
        exact hentry
      · exact hentry
  · intro l _ hrunning
    rw [HuddleOwnerRegistry.renewers_retract]
    exact hrunning
  · intro l hentry
    unfold HuddleOwnerRegistry.retract
    split
    · exact Or.inl hentry
    · next e he =>
      split_ifs
      · by_cases hs : l.sessionId = sessionId
        · rw [hs] at hentry
          rw [hentry] at he
          cases he
          exact Or.inr (List.mem_append_left _ (htokens (HuddleOwnerRegistry.entryOf l)))
        · refine Or.inl ?_
          rw [Table.get?_remove, if_neg hs]
          exact hentry
      · exact Or.inl hentry

theorem entryLease_eq (h : w.owners.entries.get? l.sessionId = some (HuddleOwnerRegistry.entryOf l)) :
    w.entryLease l.key = some l := by
  have hget : w.owners.entries.get? l.key.2 = some (HuddleOwnerRegistry.entryOf l) := h
  rw [entryLease, hget]
  exact if_pos (decide_eq_true rfl)

theorem Kept.room (h : w.Kept) {x : Option JoinPhase} {joins : Table Nat JoinPhase}
    (hc : w.joins.get? a.conn = some ph) (hroom : ph.room a = some key) (hmade : pod.Made)
    (hjoin : ∀ c', joins.get? c' = if c' = a.conn then x else w.joins.get? c')
    (hstaffed : ∀ l : HuddleLease, l.key = key → w.entryLease key = some l → w.Staffed l →
      Staffed { w with huddles := w.huddles.set key pod, joins := joins } l)
    (hminted : ∀ l, ph.minted = some l → ∃ ph', x = some ph' ∧ ph'.minted = some l) :
    Kept { w with huddles := w.huddles.set key pod, joins := joins } := by
  have hhuddle : ∀ key', huddle { w with huddles := w.huddles.set key pod, joins := joins } key' =
      if key' = key then pod else w.huddle key' := by
    intro key'
    rw [huddle]
    dsimp only
    rw [Table.get?_set]
    split_ifs <;> rfl
  refine ⟨fun key' => ?_, fun sessionId entry hentry => ?_, fun key' generation hlease => ?_⟩
  · rw [hhuddle]
    split_ifs
    · exact hmade
    · exact h.made key'
  · obtain ⟨l, hl, rfl, hold⟩ := h.entries sessionId entry hentry
    refine ⟨l, hl, rfl, ?_⟩
    by_cases hkey : l.key = key
    · exact hstaffed l hkey (hkey ▸ entryLease_eq (hl ▸ hentry)) hold
    · refine hold.mono ?_ ?_ ?_
      · rw [hhuddle, if_neg hkey]
        exact Pod.Grows.refl (h.made l.key)
      · intro c' l' hc' hl'
        refine (hjoin c').trans ?_
        split_ifs with heq
        · -- The handler leaves the room of its own huddle.
          subst heq
          rw [hc] at hc'
          cases hc'
          refine absurd ?_ hkey
          rw [← hl']
          cases a <;> cases hroom <;> rfl
        · exact hc'
      · intro c' hc'
        refine (hjoin c').trans ?_
        split_ifs with heq
        · subst heq
          rw [hc] at hc'
          cases hc'
          cases hroom
        · exact hc'
  · refine (h.leases key' generation hlease).mono (fun c' ph' hc' hph' => ?_) id (fun t ht => ht)
      Or.inl
    by_cases heq : c' = a.conn
    · subst heq
      rw [hc] at hc'
      cases hc'
      obtain ⟨ph', hx, hminted'⟩ := hminted _ hph'
      exact Or.inl ⟨a.conn, ph', (hjoin _).trans ((if_pos rfl).trans hx), hminted'⟩
    · exact Or.inl ⟨c', ph', (hjoin _).trans ((if_neg heq).trans hc'), hph'⟩

theorem huddle_set (w : OwnerPod) (key key' : HuddleKey) (pod : Pod) (joins : Table Nat JoinPhase) :
    huddle { w with huddles := w.huddles.set key pod, joins := joins } key' =
      if key' = key then pod else w.huddle key' := by
  rw [huddle]
  dsimp only
  rw [Table.get?_set]
  split_ifs <;> rfl

theorem room_resolved {lease : HuddleLease} {acquired : Bool}
    (h : JoinPhase.room a (.resolved lease acquired) = some key) :
    lease.key = key ∧ (∀ c, a ≠ .leave c) ∧ ∀ c, a ≠ .cleanup c := by
  cases a with
  | addPeer c peerId pubkey version remote =>
    simp only [JoinPhase.room] at h
    split_ifs at h
    exact ⟨Option.some.inj h, by simp, by simp⟩
  | getOrCreate c => exact ⟨Option.some.inj h, by simp, by simp⟩
  | check c fails => exact ⟨Option.some.inj h, by simp, by simp⟩
  | refuse c cleans => exact ⟨Option.some.inj h, by simp, by simp⟩
  | _ => cases h

theorem after_accepts {pod' : Pod} {lease : HuddleLease} {evicted : Bool}
    (hroom : JoinPhase.room a (.resolved lease true) = some lease.key)
    (haccepts : accepts pod a = true) (hstep : connStep pod a = some pod') :
    ∃ ph', (JoinPhase.resolved lease true).after (pod'.conns.get? a.conn) evicted = some ph' ∧
      ph'.minted = some lease := by
  cases a with
  | getOrCreate c =>
    simp only [connStep] at hstep
    split at hstep
    · cases hstep
    · cases hstep
      refine ⟨.resolved lease true, ?_, rfl⟩
      rw [ConnAction.conn, Table.get?_set, if_pos rfl]
      rfl
  | check c fails =>
    simp only [accepts, Bool.and_eq_true, Bool.not_eq_true'] at haccepts
    simp only [connStep] at hstep
    split at hstep
    · cases hstep
      refine ⟨.resolved lease true, ?_, rfl⟩
      rw [ConnAction.conn, Table.get?_set, if_pos rfl, haccepts.1, haccepts.2]
      rfl
    · cases hstep
  | addPeer c peerId pubkey version remote =>
    simp only [connStep] at hstep
    split at hstep
    · next k hc =>
      split at hstep
      · cases hstep
      · next r hr =>
        split_ifs at hstep
        have hremote : remote = none := by
          cases remote with
          | none => rfl
          | some idx => cases hroom
        subst hremote
        have hadmits : r.admits version = true := by simpa [accepts, hc, hr] using haccepts
        obtain ⟨x, hx⟩ := Room.addPeer_of_admits hadmits peerId pubkey
        rw [admission, hx] at hstep
        cases hstep
        refine ⟨.admitted lease true, ?_, rfl⟩
        rw [ConnAction.conn, Table.get?_set, if_pos rfl]
        rfl
    · cases hstep
  | refuse c cleans => cases haccepts
  | _ => cases hroom

theorem kept_room (h : w.Kept) {evicted : Bool} (hc : w.joins.get? a.conn = some ph)
    (hroom : ph.room a = some key) (hcond : w.keepsRoom (.room a) = true)
    (hstep : connStep (w.huddle key) a = some pod)
    (hevicted : ∀ c, a = .cleanup c → evicted = (w.huddle key).evicts) : Kept { w with
      huddles := w.huddles.set key pod
      joins :=
        match ph.after (pod.conns.get? a.conn) evicted with
        | some ph => w.joins.set a.conn ph
        | none => w.joins.remove a.conn } := by
  have hjoin : ∀ c', (match ph.after (pod.conns.get? a.conn) evicted with
        | some ph => w.joins.set a.conn ph
        | none => w.joins.remove a.conn).get? c' =
      if c' = a.conn then ph.after (pod.conns.get? a.conn) evicted else w.joins.get? c' := by
    intro c'
    cases ph.after (pod.conns.get? a.conn) evicted with
    | none => exact Table.get?_remove ..
    | some ph' => exact Table.get?_set ..
  simp only [keepsRoom, hc] at hcond
  have hmade := h.made key
  -- What grows keeps its staff, apart from the handler itself.
  have hgrown : (w.huddle key).Grows pod →
      (∀ l, ph = .leaving l → ph.after (pod.conns.get? a.conn) evicted = some (.leaving l)) →
      ∀ joins : Table Nat JoinPhase, (∀ c', joins.get? c' =
        if c' = a.conn then ph.after (pod.conns.get? a.conn) evicted else w.joins.get? c') →
      ∀ l : HuddleLease, l.key = key → w.Staffed l →
        Staffed { w with huddles := w.huddles.set key pod, joins := joins } l := by
    intro hgrows hkeep joins hjoin l hkey hold
    refine hold.mono ?_ ?_ ?_
    · rw [huddle_set, if_pos hkey, hkey]
      exact hgrows
    · intro c' l' hc' _
      refine (hjoin c').trans ?_
      split_ifs with heq
      · subst heq
        rw [hc] at hc'
        cases hc'
        exact hkeep l' rfl
      · exact hc'
    · intro c' hc'
      refine (hjoin c').trans ?_
      split_ifs with heq
      · subst heq
        rw [hc] at hc'
        cases hc'
        cases hroom
      · exact hc'
  cases ph with
  | resolved lease acquired =>
    obtain ⟨rfl, hleave, hcleanup⟩ := room_resolved hroom
    have hgrows := Pod.grows_conn hmade hstep hleave hcleanup
    refine h.room hc hroom hgrows.1 hjoin ?_ ?_
    · exact fun l hkey _ hold => hgrown hgrows (fun l' hl' => by cases hl') _ hjoin l hkey hold
    · intro l hl
      cases acquired with
      | false => cases hl
      | true =>
        cases hl
        exact after_accepts hroom hcond hstep
  | refused key' =>
    cases a with
    | cleanup c =>
      cases hroom
      refine h.room hc rfl ?_ hjoin ?_ (fun l hl => by cases hl)
      · rcases Pod.cleanup_cases hmade hstep with ⟨-, hmade'⟩ | ⟨-, hgrows⟩
        · exact hmade'
        · exact hgrows.1
      · intro l hkey hentry hold
        rcases Pod.cleanup_cases hmade hstep with ⟨hevicts, -⟩ | ⟨-, hgrows⟩
        · simp [hevicts, hentry] at hcond
        · exact hgrown hgrows (fun l' hl' => by cases hl') _ hjoin l hkey hold
    | _ => cases hroom
  | connected lease lost draining =>
    cases a with
    | leave c =>
      cases hroom
      obtain ⟨hmade', hcurrent⟩ := Pod.made_leave hmade hstep
      refine h.room hc rfl hmade' hjoin ?_ (fun l hl => by cases hl)
      intro l hkey _ hold
      -- The leaver itself may be the last one.
      by_cases hnone : (w.huddle lease.key).current = none
      · rcases hold with hpeopled | ⟨hcurrent', -⟩ | ⟨c', hc'⟩
        · obtain ⟨k, -, hk, -⟩ := Pod.peopled_iff.mp hpeopled
          rw [hkey, hnone] at hk
          cases hk
        · rw [hkey] at hcurrent'
          exact absurd hnone hcurrent'
        · refine Or.inr (Or.inr ⟨c', (hjoin c').trans ?_⟩)
          split_ifs with heq
          · rw [heq, hc] at hc'
            cases hc'
          · exact hc'
      · refine Or.inr (Or.inl ⟨?_, c, lease, ?_, hkey.symm⟩)
        · rw [huddle_set, if_pos hkey, hcurrent]
          exact hnone
        · exact (hjoin c).trans (if_pos rfl)
    | _ => cases hroom
  | leaving lease =>
    cases a with
    | archive c fails =>
      cases hroom
      have hgrows := Pod.grows_conn hmade hstep (by simp) (by simp)
      refine h.room hc rfl hgrows.1 hjoin ?_ (fun l hl => by cases hl)
      intro l hkey hentry hold
      refine hgrown hgrows (fun l' hl' => ?_) _ hjoin l hkey hold
      cases hl'
      have hfails : fails = false := by simpa [hentry] using hcond
      simp only [connStep] at hstep
      split at hstep
      · split at hstep
        · cases hstep
        · rw [hfails, if_neg Bool.false_ne_true] at hstep
          cases hstep
          rw [ConnAction.conn, Table.get?_set, if_pos rfl]
          rfl
      · cases hstep
    | cleanup c =>
      cases hroom
      have hgone : pod.conns.get? c = none := by
        simp only [connStep] at hstep
        split at hstep
        · cases hstep
          exact (Table.get?_remove ..).trans (if_pos rfl)
        · cases hstep
          exact (Table.get?_remove ..).trans (if_pos rfl)
        · cases hstep
      rcases Pod.cleanup_cases hmade hstep with ⟨hevicts, hmade'⟩ | ⟨hevicts, hgrows⟩
      · refine h.room hc rfl hmade' hjoin ?_ (fun l hl => by cases hl)
        intro l hkey hentry _
        obtain rfl : l = lease := by simpa [hevicts, hentry] using hcond
        refine Or.inr (Or.inr ⟨c, (hjoin c).trans ((if_pos rfl).trans ?_)⟩)
        rw [ConnAction.conn, hgone, hevicted c rfl, hevicts]
        rfl
      · refine h.room hc rfl hgrows.1 hjoin ?_ (fun l hl => by cases hl)
        intro l hkey _ hold
        have hpeopled : (w.huddle lease.key).peopled = true →
            ∀ joins : Table Nat JoinPhase, (huddle { w with
              huddles := w.huddles.set lease.key pod
              joins := joins } l.key).peopled = true := by
          intro hpeopled joins
          rw [huddle_set, if_pos hkey]
          exact hgrows.2.2 hpeopled
        rcases hold with hold | ⟨hcurrent, -⟩ | ⟨c', hc'⟩
        · exact Or.inl (hpeopled (hkey ▸ hold) _)
        · rw [hkey] at hcurrent
          refine Or.inl (hpeopled ((Pod.evicts_or_peopled hmade hcurrent).resolve_left ?_) _)
          rw [hevicts]
          exact Bool.false_ne_true
        · refine Or.inr (Or.inr ⟨c', (hjoin c').trans ?_⟩)
          split_ifs with heq
          · rw [heq, hc] at hc'
            cases hc'
          · exact hc'
    | _ => cases hroom
  | _ => cases hroom

/-! ## Leases and remote peers -/

theorem Kept.ungrant (h : w.Kept) {leases : Table HuddleKey (Nat × Bool)}
    (generations : Table HuddleKey Nat)
    (hleases : ∀ key generation, leases.get? key = some (generation, true) →
      w.leases.get? key = some (generation, true)) :
    Kept { w with leases := leases, generations := generations } := by
  refine ⟨h.made, fun sessionId entry hentry => ?_, fun key generation hlease => ?_⟩
  · obtain ⟨l, hl, heq, hstaffed⟩ := h.entries sessionId entry hentry
    exact ⟨l, hl, heq, hstaffed.mono (Pod.Grows.refl (h.made _)) (fun _ _ hc _ => hc)
      (fun _ hc => hc)⟩
  · exact (h.leases key generation (hleases key generation hlease)).mono
      (fun c ph hc hph => Or.inl ⟨c, ph, hc, hph⟩) id (fun t ht => ht) Or.inl

theorem leases_remove (key : HuddleKey) : ∀ key' generation,
    (w.leases.remove key).get? key' = some (generation, true) →
      key' ≠ key ∧ w.leases.get? key' = some (generation, true) := by
  intro key' generation h
  rw [Table.get?_remove] at h
  split_ifs at h with hkey
  exact ⟨hkey, h⟩

theorem kept_acquire (h : w.Kept) (hc : w.joins.get? c = some (.resolving key)) :
    ((w.grant key true).1.setJoin c
      (.resolved ⟨key.1, key.2, (w.grant key true).2⟩ true)).Kept := by
  have hpass : (w.setJoin c (.resolved ⟨key.1, key.2, (w.grant key true).2⟩ true)).Kept :=
    h.pass hc rfl fun c' => Table.get?_set ..
  refine ⟨hpass.made, fun sessionId entry hentry => ?_, fun key' generation hlease => ?_⟩
  · obtain ⟨l, hl, heq, hstaffed⟩ := hpass.entries sessionId entry hentry
    exact ⟨l, hl, heq, hstaffed.mono (Pod.Grows.refl (hpass.made _)) (fun _ _ hc _ => hc)
      (fun _ hc => hc)⟩
  · change (w.leases.set key _).get? key' = _ at hlease
    rw [Table.get?_set] at hlease
    split_ifs at hlease with hkey
    · cases hlease
      subst hkey
      exact Or.inl ⟨c, _, (Table.get?_set ..).trans (if_pos rfl), rfl⟩
    · exact (hpass.leases key' generation hlease).mono
        (fun c ph hc hph => Or.inl ⟨c, ph, hc, hph⟩) id (fun t ht => ht) Or.inl

theorem Kept.people (h : w.Kept) (remotes : List (HuddleKey × Uuid)) (hmade : pod.Made)
    (hgrows : w.entryLease key ≠ none → (w.huddle key).Grows pod) :
    Kept { w with huddles := w.huddles.set key pod, remotes := remotes } := by
  have hhuddle : ∀ key', huddle { w with
      huddles := w.huddles.set key pod
      remotes := remotes } key' = if key' = key then pod else w.huddle key' :=
    fun key' => huddle_set w key key' pod w.joins
  refine ⟨fun key' => ?_, fun sessionId entry hentry => ?_, fun key' generation hlease => ?_⟩
  · rw [hhuddle]
    split_ifs
    · exact hmade
    · exact h.made key'
  · obtain ⟨l, hl, rfl, hstaffed⟩ := h.entries sessionId entry hentry
    refine ⟨l, hl, rfl, hstaffed.mono ?_ (fun _ _ hc _ => hc) (fun _ hc => hc)⟩
    rw [hhuddle]
    split_ifs with hkey
    · rw [hkey]
      refine hgrows fun hnone => ?_
      rw [← hkey, entryLease_eq (hl ▸ hentry)] at hnone
      cases hnone
    · exact Pod.Grows.refl (h.made _)
  · exact (h.leases key' generation hlease).mono (fun c ph hc hph => Or.inl ⟨c, ph, hc, hph⟩) id
      (fun t ht => ht) Or.inl

theorem kept_register (h : w.Kept) {generation : Nat} {peerId : Uuid} {pubkey : String}
    {version : UInt8}
    (hstep : ownerStep w (.register key generation peerId pubkey version) = some w') : w'.Kept := by
  obtain ⟨hgrows, hcurrent⟩ := Pod.grows_getOrCreate (h.made key)
  simp only [ownerStep] at hstep
  split at hstep
  · cases hstep
  · split at hstep
    · cases hstep
    · next r hr =>
      have hopened := h.people w.remotes hgrows.1 fun _ => hgrows
      split at hstep
      · cases hstep
        exact hopened
      · split at hstep
        · cases hstep
        · split at hstep
          · cases hstep
            exact hopened
          · next r' idx hadd =>
            cases hstep
            obtain ⟨-, -, g, -, rfl⟩ := Room.addPeer_eq_ok hadd
            have hmore : (w.huddle key).getOrCreate.1.Grows { (w.huddle key).getOrCreate.1 with
                rooms := (w.huddle key).getOrCreate.1.rooms.set (w.huddle key).getOrCreate.2
                  (r.insert (g.pin version) peerId pubkey idx) } :=
              Pod.grows_set hgrows.1 rfl rfl hr fun _ =>
                List.append_ne_nil_of_right_ne_nil r.peers (List.cons_ne_nil _ _)
            refine hopened.people _ hmore.1 fun _ => ?_
            have hsame := huddle_set w key key (w.huddle key).getOrCreate.1 w.joins
            rw [if_pos rfl] at hsame
            rw [show huddle { w with huddles := w.huddles.set key (w.huddle key).getOrCreate.1 } key =
              _ from hsame]
            exact hmore

theorem kept_unregister (h : w.Kept) {peerId : Uuid}
    (hcond : w.keepsRoom (.unregister key peerId) = true)
    (hstep : ownerStep w (.unregister key peerId) = some w') : w'.Kept := by
  simp only [ownerStep] at hstep
  split at hstep
  · split at hstep
    · cases hstep
      exact ⟨h.made, h.entries, h.leases⟩
    · next k hk =>
      split at hstep
      · cases hstep
      · next r hr =>
        cases hstep
        have hmade : Pod.Made { w.huddle key with
            rooms := (w.huddle key).rooms.set k (r.removePeer peerId) } := by
          intro j hj
          change ((w.huddle key).rooms.set k _).get? j ≠ none
          rw [Table.get?_set]
          split_ifs
          · exact fun h => by cases h
          · exact h.made key j hj
        refine h.people _ hmade fun hentry => Pod.grows_set (h.made key) rfl rfl hr fun hne => ?_
        have hlive : (w.huddle key).live = some r := Option.bind_eq_some_iff.mpr ⟨k, hk, hr⟩
        obtain ⟨l, hl⟩ := Option.ne_none_iff_exists'.mp hentry
        simp only [keepsRoom, hl, Option.isNone_some, Bool.false_or, hlive, Option.all_some,
          Bool.or_eq_true, Room.isEmpty, List.isEmpty_iff] at hcond
        obtain ⟨p, hp, hother⟩ := List.any_eq_true.mp (hcond.resolve_left hne)
        refine List.ne_nil_of_mem (a := p) ?_
        unfold Room.removePeer
        split
        · exact hp
        · next peer hpeer =>
          rw [Room.erase, List.mem_filter, Room.peerId_of_find? hpeer]
          exact ⟨hp, hother⟩
  · cases hstep

/-! ## The registry -/

theorem publish_cases (o : HuddleOwnerRegistry) (l : HuddleLease) :
    (o.publish l).1.renewers = o.renewers.set l true ∧
      (∀ t ∈ o.cancelled, t ∈ (o.publish l).1.cancelled) ∧
      ((.cancel l ∈ (o.publish l).1.cancelled ∧ (o.publish l).1.entries = o.entries) ∨
        (o.isDraining = false ∧ o.entries.get? l.sessionId = none ∧ (o.publish l).1.entries =
          o.entries.set l.sessionId (HuddleOwnerRegistry.entryOf l))) := by
  unfold HuddleOwnerRegistry.publish
  split_ifs with hdraining
  · refine ⟨rfl, fun t ht => List.mem_cons_of_mem _ (List.mem_cons_of_mem _ ht), Or.inl ⟨?_, rfl⟩⟩
    exact List.mem_cons_of_mem _ List.mem_cons_self
  · split
    · exact ⟨rfl, fun t ht => List.mem_cons_of_mem _ ht, Or.inl ⟨List.mem_cons_self, rfl⟩⟩
    · next hnone =>
      exact ⟨rfl, fun t ht => ht, Or.inr ⟨by simpa using hdraining, hnone, rfl⟩⟩

theorem kept_attach (h : w.Kept) (hc : w.joins.get? c = some (.admitted l true))
    (hcond : w.keepsRoom (.attach c) = true) :
    ({ w with owners := (w.owners.publish l).1 }.setJoin c
      (.published l (w.owners.publish l).2.1 (w.owners.publish l).2.2)).Kept := by
  obtain ⟨hrenewers, hcancelled, hentries⟩ := publish_cases w.owners l
  simp only [keepsRoom, hc, Bool.or_eq_true] at hcond
  have hjoin : ∀ c', c' ≠ c → ({ w with owners := (w.owners.publish l).1 }.setJoin c
      (.published l (w.owners.publish l).2.1 (w.owners.publish l).2.2)).joins.get? c' =
        w.joins.get? c' := by
    intro c' hne
    exact (Table.get?_set ..).trans (if_neg hne)
  have hstaffed : ∀ l' : HuddleLease, w.Staffed l' →
      ({ w with owners := (w.owners.publish l).1 }.setJoin c
        (.published l (w.owners.publish l).2.1 (w.owners.publish l).2.2)).Staffed l' := by
    intro l' hold
    refine hold.mono (Pod.Grows.refl (h.made _)) ?_ ?_
    · intro c' l'' hc' _
      rw [hjoin c' (by rintro rfl; rw [hc] at hc'; cases hc')]
      exact hc'
    · intro c' hc'
      rw [hjoin c' (by rintro rfl; rw [hc] at hc'; cases hc')]
      exact hc'
  refine ⟨h.made, fun sessionId entry hentry => ?_, fun key generation hlease => ?_⟩
  · change (w.owners.publish l).1.entries.get? sessionId = some entry at hentry
    rcases hentries with ⟨-, hsame⟩ | ⟨hdraining, hnone, hset⟩
    · rw [hsame] at hentry
      obtain ⟨l', hl', heq, hold⟩ := h.entries sessionId entry hentry
      exact ⟨l', hl', heq, hstaffed l' hold⟩
    · rw [hset, Table.get?_set] at hentry
      split_ifs at hentry with hs
      · cases hentry
        refine ⟨l, hs.symm, rfl, hstaffed l (Or.inl ?_)⟩
        simpa [hdraining, hnone] using hcond
      · obtain ⟨l', hl', heq, hold⟩ := h.entries sessionId entry hentry
        exact ⟨l', hl', heq, hstaffed l' hold⟩
  · by_cases hl : (⟨key.1, key.2, generation⟩ : HuddleLease) = l
    · rw [hl]
      refine Or.inr ⟨?_, ?_⟩
      · change (w.owners.publish l).1.renewers.get? l = some true
        rw [hrenewers, Table.get?_set, if_pos rfl]
      · rcases hentries with ⟨hmem, -⟩ | ⟨-, -, hset⟩
        · exact Or.inl hmem
        · refine Or.inr ?_
          change (w.owners.publish l).1.entries.get? l.sessionId = _
          rw [hset, Table.get?_set, if_pos rfl]
    · refine (h.leases key generation hlease).mono ?_ ?_ hcancelled ?_
      · intro c' ph hc' hph
        have hne : c' ≠ c := by
          rintro rfl
          rw [hc] at hc'
          cases hc'
          exact hl (Option.some.inj hph).symm
        exact Or.inl ⟨c', ph, (hjoin c' hne).trans hc', hph⟩
      · intro hrunning
        change (w.owners.publish l).1.renewers.get? _ = some true
        rw [hrenewers, Table.get?_set, if_neg hl]
        exact hrunning
      · intro hentry
        refine Or.inl ?_
        change (w.owners.publish l).1.entries.get? _ = _
        rcases hentries with ⟨-, hsame⟩ | ⟨-, hnone, hset⟩
        · rw [hsame]
          exact hentry
        · rw [hset, Table.get?_set]
          split_ifs with hs
          · rw [hs, hnone] at hentry
            cases hentry
          · exact hentry

theorem kept_recheck (h : w.Kept) {signals : HuddleOwnerSignals} {fresh : Bool}
    (hc : w.joins.get? c = some (.published l signals fresh)) :
    ({ w with owners := if fresh then w.owners.recheck l else w.owners }.setJoin c
      (.connected l (some signals.lost) (some signals.draining))).Kept := by
  have hregistry : Kept { w with owners := if fresh then w.owners.recheck l else w.owners } := by
    unfold HuddleOwnerRegistry.recheck
    split_ifs
    · have hdrained := h.retract l.sessionId l.generation (fun e => [e.draining, e.cancel])
        (by simp)
      refine hdrained.registry (fun _ _ hentry => Or.inl hentry) ?_ (fun _ _ hrunning => hrunning)
        (fun _ hentry => Or.inl hentry)
      exact fun t ht => List.mem_append_right [Token.draining l, Token.cancel l] ht
    · exact h
    · exact h
  exact hregistry.pass hc rfl fun c' => Table.get?_set ..

theorem kept_release (h : w.Kept) (hc : w.joins.get? c = some (.emptied l)) : Kept { w with
      owners := w.owners.release l.sessionId l.generation
      joins := w.joins.remove c } := by
  have hreleased : Kept { w with owners := w.owners.release l.sessionId l.generation } :=
    h.retract l.sessionId l.generation _ (by simp)
  have hjoin : ∀ c' ph, w.joins.get? c' = some ph → ph ≠ .emptied l →
      (w.joins.remove c).get? c' = some ph := by
    intro c' ph hc' hne
    rw [Table.get?_remove, if_neg]
    · exact hc'
    · rintro rfl
      rw [hc] at hc'
      exact hne (Option.some.inj hc').symm
  refine ⟨h.made, fun sessionId entry hentry => ?_, fun key generation hlease => ?_⟩
  · obtain ⟨l', hl', heq, hstaffed⟩ := hreleased.entries sessionId entry hentry
    refine ⟨l', hl', heq, hstaffed.mono (Pod.Grows.refl (h.made _)) ?_ ?_⟩
    · exact fun c' l'' hc' _ => hjoin c' _ hc' (by simp)
    · intro c' hc'
      refine hjoin c' _ hc' fun hsame => ?_
      obtain rfl : l' = l := JoinPhase.emptied.inj hsame
      subst hl'
      rw [heq] at hentry
      exact HuddleOwnerRegistry.entries_retract l' _ hentry
  · refine (hreleased.leases key generation hlease).mono (fun c' ph hc' hph => ?_) id
      (fun t ht => ht) Or.inl
    exact Or.inl ⟨c', ph, hjoin c' ph hc' (by rintro rfl; cases hph), hph⟩

theorem kept_end (h : w.Kept) (tokens : List Token) (hlease : w.holds l = false) :
    Kept { w with owners := { w.owners with
      renewers := w.owners.renewers.set l false
      cancelled := tokens ++ w.owners.cancelled } } := by
  refine h.registry (fun _ _ hentry => Or.inl hentry) (fun t ht => List.mem_append_right _ ht) ?_
    (fun _ hentry => Or.inl hentry)
  intro l' hheld hrunning
  rw [Table.get?_set, if_neg]
  · exact hrunning
  · rintro rfl
    rw [holds, hheld] at hlease
    simp at hlease

theorem kept_released (h : w.Kept) (tokens : List Token) : Kept { w with
      leases := w.leases.remove l.key
      owners := { w.owners with
        renewers := w.owners.renewers.set l false
        cancelled := tokens ++ w.owners.cancelled } } := by
  have hgone : Kept { w with leases := w.leases.remove l.key } :=
    h.ungrant w.generations fun key generation hlease =>
      (leases_remove l.key key generation hlease).2
  refine kept_end hgone (l := l) _ ?_
  rw [holds, decide_eq_false_iff_not]
  intro hlease
  exact (leases_remove l.key l.key l.generation hlease).1 rfl

theorem kept_step {a : OwnerAction} (h : w.Kept) (hcond : w.keepsRoom a = true)
    (hstep : ownerStep w a = some w') : w'.Kept := by
  cases a with
  | start c key =>
    simp only [ownerStep] at hstep
    split_ifs at hstep with hfree
    cases hstep
    refine h.enter ?_
    rw [Bool.or_eq_true, not_or] at hfree
    simpa using hfree.1
  | lookup c =>
    simp only [ownerStep] at hstep
    split at hstep
    · next key hc =>
      split at hstep
      · cases hstep
        exact h.pass hc rfl fun c' => Table.get?_set ..
      · cases hstep
    · cases hstep
  | acquire c =>
    simp only [ownerStep] at hstep
    split at hstep
    · next key hc =>
      split at hstep
      · cases hstep
        exact kept_acquire h hc
      · cases hstep
    · cases hstep
  | ready c =>
    simp only [ownerStep] at hstep
    split at hstep
    · next l hc =>
      split at hstep
      · cases hstep
        exact h.pass hc rfl fun c' => Table.get?_set ..
      · cases hstep
        exact h.pass hc rfl fun c' => Table.get?_set ..
    · cases hstep
  | giveUp c =>
    simp only [ownerStep] at hstep
    split at hstep
    · next key hc =>
      cases hstep
      exact h.pass hc rfl fun c' => Table.get?_remove ..
    · cases hstep
  | room a =>
    simp only [ownerStep] at hstep
    split at hstep
    · cases hstep
    · next ph hc =>
      split at hstep
      · cases hstep
      · next key hroom =>
        split at hstep
        · cases hstep
        · next pod hpod =>
          cases hstep
          refine kept_room h hc hroom hcond hpod fun c hac => ?_
          rw [hac]
  | attach c =>
    simp only [ownerStep] at hstep
    split at hstep
    · next l hc =>
      cases hstep
      exact kept_attach h hc hcond
    · cases hstep
  | recheck c =>
    simp only [ownerStep] at hstep
    split at hstep
    · next l signals fresh hc =>
      cases hstep
      exact kept_recheck h hc
    · cases hstep
  | lostFor c =>
    simp only [ownerStep] at hstep
    split at hstep
    · next l hc =>
      cases hstep
      exact h.pass hc rfl fun c' => Table.get?_set ..
    · cases hstep
  | drainFor c =>
    simp only [ownerStep] at hstep
    split at hstep
    · next l lost hc =>
      cases hstep
      exact h.pass hc rfl fun c' => Table.get?_set ..
    · cases hstep
  | release c =>
    simp only [ownerStep] at hstep
    split at hstep
    · next l hc =>
      cases hstep
      exact kept_release h hc
    · cases hstep
  | startDrain =>
    cases hstep
    exact h.registry (fun _ _ hentry => Or.inl hentry) (fun _ ht => ht) (fun _ _ hrunning => hrunning)
      (fun _ hentry => Or.inl hentry)
  | drain sessionId generation =>
    simp only [ownerStep] at hstep
    split_ifs at hstep
    cases hstep
    exact h.retract sessionId generation _ (by simp)
  | renew l =>
    simp only [ownerStep] at hstep
    split at hstep
    · split_ifs at hstep with hheld
      · cases hstep
        exact h
      · cases hstep
        exact kept_end h [.lost l] (by simpa using hheld)
    · cases hstep
  | renewFails l released =>
    simp only [ownerStep] at hstep
    split at hstep
    · cases hstep
      simp only [keepsRoom, Bool.or_eq_true, Bool.not_eq_true'] at hcond
      split_ifs with hreleased
      · exact kept_released h [.lost l]
      · refine kept_end h [.lost l] ?_
        rcases hcond with hcond | hcond
        · rw [hcond] at hreleased
          simpa using hreleased
        · exact hcond
    · cases hstep
  | stop l fails =>
    simp only [ownerStep] at hstep
    split at hstep
    · split at hstep
      · simp only [keepsRoom, Bool.or_eq_true, Bool.not_eq_true'] at hcond
        split_ifs at hstep with hfails hheld
        · cases hstep
          rw [hfails] at hcond
          exact kept_end h [] (hcond.resolve_left (by simp))
        · cases hstep
          exact kept_released h []
        · cases hstep
          exact kept_end h [.lost l] (by simpa using hheld)
      · cases hstep
    · cases hstep
  | expire key =>
    cases hstep
    exact h.ungrant w.generations fun key' generation hlease =>
      (leases_remove key key' generation hlease).2
  | takeover key =>
    simp only [ownerStep] at hstep
    split_ifs at hstep
    cases hstep
    refine h.ungrant _ fun key' generation hlease => ?_
    rw [Table.get?_set] at hlease
    split_ifs at hlease
    · cases hlease
    · exact hlease
  | register key generation peerId pubkey version => exact kept_register h hstep
  | unregister key peerId => exact kept_unregister h hcond hstep

/-! ## Runs -/

/-- No join or leave is in progress: the handlers serve their clients, and no renewer that is told
to stop has yet to release its lease. -/
structure AtRest (w : OwnerPod) : Prop where
  joins : ∀ c ph, w.joins.get? c = some ph → ∃ l lost draining, ph = .connected l lost draining
  renewers : ∀ l, w.owners.renewers.get? l = some true → .cancel l ∉ w.owners.cancelled

def hasPeer (w : OwnerPod) (key : HuddleKey) : Prop := (w.huddle key).peopled = true

structure OwnsOnlyPeopled (w : OwnerPod) : Prop where
  leases : ∀ key generation, w.leases.get? key = some (generation, true) → w.hasPeer key
  entries : ∀ sessionId entry, w.owners.entries.get? sessionId = some entry →
    entry.lost.lease.sessionId = sessionId ∧ w.hasPeer entry.lost.lease.key

theorem Kept.ownsOnlyPeopled (h : w.Kept) (hrest : w.AtRest) : w.OwnsOnlyPeopled := by
  have hstaffed : ∀ l, w.Staffed l → w.hasPeer l.key := by
    rintro l (hpeopled | ⟨-, c, l', hc, -⟩ | ⟨c, hc⟩)
    · exact hpeopled
    · obtain ⟨_, _, _, hph⟩ := hrest.joins c _ hc
      cases hph
    · obtain ⟨_, _, _, hph⟩ := hrest.joins c _ hc
      cases hph
  refine ⟨fun key generation hlease => ?_, fun sessionId entry hentry => ?_⟩
  · rcases h.leases key generation hlease with ⟨c, ph, hc, hph⟩ | ⟨hrunning, hmem | hentry⟩
    · obtain ⟨_, _, _, rfl⟩ := hrest.joins c ph hc
      cases hph
    · exact absurd hmem (hrest.renewers _ hrunning)
    · obtain ⟨l, -, heq, hl⟩ := h.entries _ _ hentry
      have hsame := Token.lost.inj (congrArg HuddleOwnerEntry.lost heq)
      have hpeer := hstaffed l hl
      rw [← hsame] at hpeer
      exact hpeer
  · obtain ⟨l, hl, rfl, hold⟩ := h.entries sessionId entry hentry
    exact ⟨hl, hstaffed l hold⟩

def demoStay : List OwnerAction :=
  demoJoins ++ [OwnerAction.lostFor 1, .drainFor 1, .room (.leave 0), .room (.cleanup 0)]

def demoRefused : List OwnerAction :=
  [.start 0 (7, 1), .acquire 0, .room (.getOrCreate 0), .room (.check 0 false),
    .room (.refuse 0 false)]

end OwnerPod

end Vingilot.Huddle
