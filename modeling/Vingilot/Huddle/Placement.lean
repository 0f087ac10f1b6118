import Mathlib.Data.List.Perm.Basic
import Vingilot.Huddle.Mesh
import Vingilot.Huddle.OneRoom

/-!
# Where the participants of a huddle are

The owner's allocator gives each participant an index of its own. The peers of a pod that does not
own the huddle are those for which the owner has a sink to it, by their indices.
-/

namespace Vingilot.Huddle

open Tunnel (RuntimeId FencedHeader)
open Machine

/-! ## Seats -/

def Room.seats (r : Room) : List (Uuid × UInt8) := r.peers.map fun p => (p.peerId, p.peerIndex)

@[simp] theorem Room.seats_insert (r : Room) (g : AdmissionGuard) (peerId : Uuid) (pubkey : String)
    (idx : UInt8) : (r.insert g peerId pubkey idx).seats = r.seats ++ [(peerId, idx)] :=
  List.map_append

@[simp] theorem Room.seats_erase (r : Room) (peer : AudioPeer) :
    (r.erase peer).seats = r.seats.filter fun s => s.1 ≠ peer.peerId := by
  rw [seats, seats, List.filter_map]
  rfl

variable {r : Room} {q : Uuid}

theorem Room.mem_ids : q ∈ r.seats.map Prod.fst ↔ (r.find? q).isSome := by
  rw [Room.isSome_find?, Room.seats, List.map_map, List.mem_map]
  rfl

theorem Room.mem_seats {p : AudioPeer} (h : r.find? q = some p) : (q, p.peerIndex) ∈ r.seats :=
  List.mem_map.mpr ⟨p, List.mem_of_find?_eq_some h, by rw [Room.peerId_of_find? h]⟩

structure Room.Allocated (r : Room) : Prop where
  below : ∀ s ∈ r.seats, s.2 < r.guard.nextFresh
  taken : ∀ s ∈ r.seats, s.2 ∉ r.guard.free
  free : ∀ i ∈ r.guard.free, i < r.guard.nextFresh
  nodup : r.guard.free.Nodup

theorem Room.allocated_new : Room.new.Allocated where
  below s h := by cases h
  taken s h := by cases h
  free i h := by cases h
  nodup := List.nodup_nil

variable {idx : UInt8} {g : AdmissionGuard}

theorem Room.Allocated.alloc (h : r.Allocated) (halloc : r.guard.alloc = some (idx, g))
    (peerId : Uuid) (pubkey : String) (version : UInt8) :
    idx ∉ r.seats.map Prod.snd ∧ (r.insert (g.pin version) peerId pubkey idx).Allocated := by
  unfold AdmissionGuard.alloc at halloc
  split at halloc
  · next i rest hfree =>
    cases halloc
    have hnodup := h.nodup
    rw [hfree, List.nodup_cons] at hnodup
    have hmem : idx ∈ r.guard.free := by rw [hfree]; exact List.mem_cons_self
    refine ⟨?_, ?_, ?_, ?_, hnodup.2⟩
    · intro hidx
      obtain ⟨s, hs, rfl⟩ := List.mem_map.mp hidx
      exact h.taken s hs hmem
    · intro s hs
      rw [Room.seats_insert, List.mem_append, List.mem_singleton] at hs
      rcases hs with hs | rfl
      · exact h.below s hs
      · exact h.free _ hmem
    · intro s hs
      rw [Room.seats_insert, List.mem_append, List.mem_singleton] at hs
      rcases hs with hs | rfl
      · intro hrest
        have hfull := h.taken s hs
        rw [hfree] at hfull
        exact hfull (List.mem_cons_of_mem _ hrest)
      · exact hnodup.1
    · intro i hi
      refine h.free i ?_
      rw [hfree]
      exact List.mem_cons_of_mem _ hi
  · next hfree =>
    split_ifs at halloc with hlast
    cases halloc
    have hlt : ∀ i : UInt8, i ≤ r.guard.nextFresh → i < r.guard.nextFresh + 1 := by
      intro i hi
      have hne : r.guard.nextFresh.toNat ≠ 255 := fun h => hlast (UInt8.toNat_inj.mp h)
      have hbound := r.guard.nextFresh.toNat_lt
      rw [UInt8.le_iff_toNat_le] at hi
      rw [UInt8.lt_iff_toNat_lt, UInt8.toNat_add, UInt8.toNat_one, Nat.mod_eq_of_lt (by omega)]
      omega
    refine ⟨?_, ?_, ?_, ?_, h.nodup⟩
    · intro hidx
      obtain ⟨s, hs, hsidx⟩ := List.mem_map.mp hidx
      have hbelow := h.below s hs
      rw [hsidx] at hbelow
      exact absurd hbelow (UInt8.lt_irrefl _)
    · intro s hs
      rw [Room.seats_insert, List.mem_append, List.mem_singleton] at hs
      rcases hs with hs | rfl
      · exact hlt _ (UInt8.le_of_lt (h.below s hs))
      · exact hlt _ (UInt8.le_refl _)
    · intro s hs hsfree
      change s.2 ∈ r.guard.free at hsfree
      rw [hfree] at hsfree
      cases hsfree
    · intro i hi
      exact hlt _ (UInt8.le_of_lt (h.free i hi))

theorem Room.Allocated.erase (h : r.Allocated) {peer : AudioPeer} (hpeer : r.find? q = some peer)
    (hindices : (r.seats.map Prod.snd).Nodup) : (r.erase peer).Allocated := by
  have hseat := Room.mem_seats hpeer
  have hid := Room.peerId_of_find? hpeer
  refine ⟨?_, ?_, ?_, ?_⟩
  · intro s hs
    rw [Room.seats_erase, List.mem_filter] at hs
    exact h.below s hs.1
  · intro s hs hsfree
    rw [Room.seats_erase, List.mem_filter, decide_eq_true_eq] at hs
    rcases List.mem_cons.mp hsfree with heq | hold
    · have hsame := List.inj_on_of_nodup_map hindices hs.1 hseat heq
      exact hs.2 (by rw [hsame, hid])
    · exact h.taken s hs.1 hold
  · intro i hi
    rcases List.mem_cons.mp hi with rfl | hold
    · exact h.below _ hseat
    · exact h.free i hold
  · exact List.nodup_cons.mpr ⟨h.taken _ hseat, h.nodup⟩

/-! ## Layouts -/

/-- The part of a huddle that media leaves as it is. -/
@[ext] structure Layout where
  owner : RuntimeId
  seats : RuntimeId → List (Uuid × UInt8)
  sinkTo : Uuid → Option RuntimeId
  indexOf : Participant → Option UInt8
  registeredOf : Participant → Option Uuid

def Mesh.layout (w : Mesh) : Layout :=
  ⟨w.owner, fun pod => (w.room pod).seats, fun id => (w.sinks.get? id).map (·.dest),
    fun p => (w.sessions.get? p).map (·.peerIndex),
    fun p => (w.sessions.get? p).map (·.registered)⟩

def Layout.mirrors (l : Layout) (pod : RuntimeId) : List (Uuid × UInt8) :=
  (l.seats l.owner).filter fun s => l.sinkTo s.1 = some pod

structure Layout.Placed (l : Layout) : Prop where
  ids : ∀ pod, ((l.seats pod).map Prod.fst).Nodup
  indices : ∀ pod, ((l.seats pod).map Prod.snd).Nodup
  mirror : ∀ pod, pod ≠ l.owner → ((l.seats pod).map Prod.snd).Perm ((l.mirrors pod).map Prod.snd)
  sinks : ∀ id pod, l.sinkTo id = some pod → pod ≠ l.owner ∧ id ∈ (l.seats l.owner).map Prod.fst
  sessions : ∀ pod id idx, l.indexOf (pod, id) = some idx ↔ pod ≠ l.owner ∧ (id, idx) ∈ l.seats pod
  registered : ∀ pod id idx reg, l.indexOf (pod, id) = some idx →
    l.registeredOf (pod, id) = some reg → (reg, idx) ∈ l.mirrors pod

theorem nodup_map_append {α β : Type} {f : α → β} {xs : List α} {x : α}
    (hxs : (xs.map f).Nodup) (hx : f x ∉ xs.map f) : ((xs ++ [x]).map f).Nodup := by
  rw [List.map_append, List.nodup_append]
  refine ⟨hxs, List.nodup_singleton _, ?_⟩
  rintro a ha b hb rfl
  rw [List.map_singleton, List.mem_singleton] at hb
  exact hx (hb ▸ ha)

theorem map_snd_filter {xs : List (Uuid × UInt8)} {id : Uuid} (hids : (xs.map Prod.fst).Nodup)
    (hindices : (xs.map Prod.snd).Nodup) (hmem : (id, idx) ∈ xs) :
    (xs.filter fun s => s.1 ≠ id).map Prod.snd = (xs.map Prod.snd).filter fun i => i ≠ idx := by
  rw [List.filter_map]
  congr 1
  refine List.filter_congr fun s hs => ?_
  have hiff : s.1 = id ↔ s.2 = idx := by
    constructor
    · intro h
      exact congrArg Prod.snd (List.inj_on_of_nodup_map hids hs hmem h)
    · intro h
      exact congrArg Prod.fst (List.inj_on_of_nodup_map hindices hs hmem h)
  simp [hiff]

namespace Layout.Placed

variable {l l' : Layout}

theorem join_owner (h : l.Placed) (id : Uuid) (idx : UInt8) (howner : l'.owner = l.owner)
    (hseats : ∀ pod, l'.seats pod =
      if pod = l.owner then l.seats l.owner ++ [(id, idx)] else l.seats pod)
    (hsinks : l'.sinkTo = l.sinkTo) (hindexOf : l'.indexOf = l.indexOf)
    (hregisteredOf : l'.registeredOf = l.registeredOf)
    (hid : id ∉ (l.seats l.owner).map Prod.fst) (hidx : idx ∉ (l.seats l.owner).map Prod.snd) :
    l'.Placed := by
  have hmirrors : ∀ pod, l'.mirrors pod = l.mirrors pod := by
    intro pod
    have hnone : l.sinkTo id ≠ some pod := fun hsink => hid (h.sinks id pod hsink).2
    rw [mirrors, mirrors, howner, hseats, if_pos rfl, hsinks, List.filter_append]
    simp [hnone]
  refine ⟨?_, ?_, ?_, ?_, ?_, ?_⟩
  · intro pod
    rw [hseats]
    split_ifs
    · exact nodup_map_append (h.ids _) hid
    · exact h.ids pod
  · intro pod
    rw [hseats]
    split_ifs
    · exact nodup_map_append (h.indices _) hidx
    · exact h.indices pod
  · intro pod hpod
    rw [howner] at hpod
    rw [hmirrors, hseats, if_neg hpod]
    exact h.mirror pod hpod
  · intro q pod hq
    rw [hsinks] at hq
    obtain ⟨hpod, hmem⟩ := h.sinks q pod hq
    rw [howner, hseats, if_pos rfl, List.map_append]
    exact ⟨hpod, List.mem_append_left _ hmem⟩
  · intro pod q i
    rw [hindexOf, h.sessions, howner, hseats]
    constructor
    · rintro ⟨hpod, hmem⟩
      rw [if_neg hpod]
      exact ⟨hpod, hmem⟩
    · rintro ⟨hpod, hmem⟩
      rw [if_neg hpod] at hmem
      exact ⟨hpod, hmem⟩
  · intro pod q i reg hi hreg
    rw [hindexOf] at hi
    rw [hregisteredOf] at hreg
    rw [hmirrors]
    exact h.registered pod q i reg hi hreg

theorem join_remote (h : l.Placed) (pod : RuntimeId) (id registered : Uuid) (idx : UInt8)
    (howner : l'.owner = l.owner) (hpod : pod ≠ l.owner)
    (hseats : ∀ q, l'.seats q = if q = pod then l.seats pod ++ [(id, idx)]
      else if q = l.owner then l.seats l.owner ++ [(registered, idx)] else l.seats q)
    (hsinks : ∀ q, l'.sinkTo q = if q = registered then some pod else l.sinkTo q)
    (hindexOf : ∀ p, l'.indexOf p = if p = (pod, id) then some idx else l.indexOf p)
    (hregisteredOf : ∀ p, l'.registeredOf p =
      if p = (pod, id) then some registered else l.registeredOf p)
    (hid : id ∉ (l.seats pod).map Prod.fst)
    (hregistered : registered ∉ (l.seats l.owner).map Prod.fst)
    (hidx : idx ∉ (l.seats pod).map Prod.snd)
    (hidx' : idx ∉ (l.seats l.owner).map Prod.snd) : l'.Placed := by
  have hown : l'.seats l.owner = l.seats l.owner ++ [(registered, idx)] := by
    rw [hseats, if_neg (Ne.symm hpod), if_pos rfl]
  have hold : ∀ s ∈ l.seats l.owner, s.1 ≠ registered := fun s hs heq =>
    hregistered (heq ▸ List.mem_map_of_mem hs)
  have hmirrors : ∀ q, l'.mirrors q =
      l.mirrors q ++ if q = pod then [(registered, idx)] else [] := by
    intro q
    rw [mirrors, mirrors, howner, hown, List.filter_append]
    congr 1
    · refine List.filter_congr fun s hs => ?_
      rw [hsinks, if_neg (hold s hs)]
    · rw [List.filter_singleton, hsinks, if_pos rfl]
      by_cases hq : q = pod
      · simp [hq]
      · simp [hq, Ne.symm hq]
  refine ⟨?_, ?_, ?_, ?_, ?_, ?_⟩
  · intro q
    rw [hseats]
    split_ifs
    · exact nodup_map_append (h.ids _) hid
    · exact nodup_map_append (h.ids _) hregistered
    · exact h.ids q
  · intro q
    rw [hseats]
    split_ifs
    · exact nodup_map_append (h.indices _) hidx
    · exact nodup_map_append (h.indices _) hidx'
    · exact h.indices q
  · intro q hq
    rw [howner] at hq
    rw [hmirrors, hseats]
    by_cases hqp : q = pod
    · subst hqp
      rw [if_pos rfl, if_pos rfl, List.map_append, List.map_append]
      exact (h.mirror q hq).append_right _
    · rw [if_neg hqp, if_neg hqp, if_neg hq, List.append_nil]
      exact h.mirror q hq
  · intro q dest hq
    rw [hsinks] at hq
    rw [howner, hown, List.map_append]
    split_ifs at hq with hqr
    · cases hq
      exact ⟨hpod, List.mem_append_right _ (by simp [hqr])⟩
    · obtain ⟨hdest, hmem⟩ := h.sinks q dest hq
      exact ⟨hdest, List.mem_append_left _ hmem⟩
  · intro q r i
    rw [hindexOf, howner, hseats]
    by_cases hqp : q = pod
    · subst hqp
      rw [if_pos rfl, List.mem_append, List.mem_singleton]
      by_cases hr : r = id
      · subst hr
        rw [if_pos rfl]
        constructor
        · intro hi
          cases hi
          exact ⟨hpod, Or.inr rfl⟩
        · rintro ⟨-, hmem | heq⟩
          · exact absurd (List.mem_map_of_mem hmem) hid
          · cases heq
            rfl
      · have hne : (q, r) ≠ (q, id) := fun heq => hr (congrArg Prod.snd heq)
        rw [if_neg hne, h.sessions]
        constructor
        · rintro ⟨hq, hmem⟩
          exact ⟨hq, Or.inl hmem⟩
        · rintro ⟨hq, hmem | heq⟩
          · exact ⟨hq, hmem⟩
          · exact absurd (congrArg Prod.fst heq) hr
    · have hne : (q, r) ≠ (pod, id) := fun heq => hqp (congrArg Prod.fst heq)
      rw [if_neg hne, if_neg hqp, h.sessions]
      constructor
      · rintro ⟨hq, hmem⟩
        rw [if_neg hq]
        exact ⟨hq, hmem⟩
      · rintro ⟨hq, hmem⟩
        rw [if_neg hq] at hmem
        exact ⟨hq, hmem⟩
  · intro q r i reg hi hreg
    rw [hindexOf] at hi
    rw [hregisteredOf] at hreg
    rw [hmirrors]
    split_ifs at hi hreg with heq
    · cases hi
      cases hreg
      rw [if_pos (congrArg Prod.fst heq)]
      exact List.mem_append_right _ (List.mem_singleton_self _)
    · exact List.mem_append_left _ (h.registered q r i reg hi hreg)

theorem leave_owner (h : l.Placed) (id : Uuid) (howner : l'.owner = l.owner)
    (hseats : ∀ pod, l'.seats pod =
      if pod = l.owner then (l.seats l.owner).filter fun s => s.1 ≠ id else l.seats pod)
    (hsinks : l'.sinkTo = l.sinkTo) (hindexOf : l'.indexOf = l.indexOf)
    (hregisteredOf : l'.registeredOf = l.registeredOf)
    (hlocal : l.sinkTo id = none) : l'.Placed := by
  have hmirrors : ∀ pod, l'.mirrors pod = l.mirrors pod := by
    intro pod
    rw [mirrors, mirrors, howner, hseats, if_pos rfl, hsinks, List.filter_filter]
    refine List.filter_congr fun s _ => ?_
    by_cases hs : s.1 = id
    · simp [hs, hlocal]
    · simp [hs]
  refine ⟨?_, ?_, ?_, ?_, ?_, ?_⟩
  · intro pod
    rw [hseats]
    split_ifs
    · exact (h.ids _).sublist (List.filter_sublist.map _)
    · exact h.ids pod
  · intro pod
    rw [hseats]
    split_ifs
    · exact (h.indices _).sublist (List.filter_sublist.map _)
    · exact h.indices pod
  · intro pod hpod
    rw [howner] at hpod
    rw [hmirrors, hseats, if_neg hpod]
    exact h.mirror pod hpod
  · intro q pod hq
    rw [hsinks] at hq
    obtain ⟨hpod, hmem⟩ := h.sinks q pod hq
    obtain ⟨s, hs, rfl⟩ := List.mem_map.mp hmem
    have hne : s.1 ≠ id := by
      rintro rfl
      rw [hlocal] at hq
      cases hq
    rw [howner, hseats, if_pos rfl]
    exact ⟨hpod, List.mem_map_of_mem (List.mem_filter.mpr ⟨hs, by simpa using hne⟩)⟩
  · intro pod q i
    rw [hindexOf, h.sessions, howner, hseats]
    constructor
    · rintro ⟨hpod, hmem⟩
      rw [if_neg hpod]
      exact ⟨hpod, hmem⟩
    · rintro ⟨hpod, hmem⟩
      rw [if_neg hpod] at hmem
      exact ⟨hpod, hmem⟩
  · intro pod q i reg hi hreg
    rw [hindexOf] at hi
    rw [hregisteredOf] at hreg
    rw [hmirrors]
    exact h.registered pod q i reg hi hreg

theorem leave_remote (h : l.Placed) (pod : RuntimeId) (id registered : Uuid) (idx : UInt8)
    (howner : l'.owner = l.owner) (hpod : pod ≠ l.owner)
    (hseats : ∀ q, l'.seats q = if q = pod then (l.seats pod).filter fun s => s.1 ≠ id
      else if q = l.owner then (l.seats l.owner).filter fun s => s.1 ≠ registered else l.seats q)
    (hsinks : ∀ q, l'.sinkTo q = if q = registered then none else l.sinkTo q)
    (hindexOf : ∀ p, l'.indexOf p = if p = (pod, id) then none else l.indexOf p)
    (hregisteredOf : ∀ p, l'.registeredOf p =
      if p = (pod, id) then none else l.registeredOf p)
    (hseat : (id, idx) ∈ l.seats pod) (hmirror : (registered, idx) ∈ l.mirrors pod) :
    l'.Placed := by
  have hown : l'.seats l.owner = (l.seats l.owner).filter fun s => s.1 ≠ registered := by
    rw [hseats, if_neg (Ne.symm hpod), if_pos rfl]
  obtain ⟨hregistered, hdest⟩ := List.mem_filter.mp hmirror
  rw [decide_eq_true_eq] at hdest
  have hmirrors : ∀ q, l'.mirrors q = (l.mirrors q).filter fun s => s.1 ≠ registered := by
    intro q
    rw [mirrors, mirrors, howner, hown, List.filter_filter, List.filter_filter]
    refine List.filter_congr fun s _ => ?_
    rw [hsinks]
    by_cases hs : s.1 = registered
    · simp [hs]
    · simp [hs]
  refine ⟨?_, ?_, ?_, ?_, ?_, ?_⟩
  · intro q
    rw [hseats]
    split_ifs
    · exact (h.ids _).sublist (List.filter_sublist.map _)
    · exact (h.ids _).sublist (List.filter_sublist.map _)
    · exact h.ids q
  · intro q
    rw [hseats]
    split_ifs
    · exact (h.indices _).sublist (List.filter_sublist.map _)
    · exact (h.indices _).sublist (List.filter_sublist.map _)
    · exact h.indices q
  · intro q hq
    rw [howner] at hq
    rw [hmirrors, hseats]
    have hsub : ((l.mirrors q).map Prod.fst).Nodup ∧ ((l.mirrors q).map Prod.snd).Nodup :=
      ⟨(h.ids _).sublist (List.filter_sublist.map _),
        (h.indices _).sublist (List.filter_sublist.map _)⟩
    by_cases hqp : q = pod
    · subst hqp
      rw [if_pos rfl, map_snd_filter (h.ids q) (h.indices q) hseat,
        map_snd_filter hsub.1 hsub.2 hmirror]
      exact (h.mirror q hq).filter _
    · rw [if_neg hqp, if_neg hq, List.filter_eq_self.mpr]
      · exact h.mirror q hq
      · intro s hs
        obtain ⟨-, hsink⟩ := List.mem_filter.mp hs
        rw [decide_eq_true_eq] at hsink ⊢
        rintro heq
        rw [heq, hdest] at hsink
        exact hqp (Option.some_inj.mp hsink).symm
  · intro q dest hq
    rw [hsinks] at hq
    split_ifs at hq with hqr
    obtain ⟨hdest', hmem⟩ := h.sinks q dest hq
    obtain ⟨s, hs, rfl⟩ := List.mem_map.mp hmem
    rw [howner, hown]
    exact ⟨hdest', List.mem_map_of_mem (List.mem_filter.mpr ⟨hs, by simpa using hqr⟩)⟩
  · intro q r i
    rw [hindexOf, howner, hseats]
    by_cases hqp : q = pod
    · subst hqp
      rw [if_pos rfl, List.mem_filter, decide_eq_true_eq]
      by_cases hr : r = id
      · subst hr
        rw [if_pos rfl]
        constructor
        · intro hi
          cases hi
        · rintro ⟨-, -, hne⟩
          exact absurd rfl hne
      · have hne : (q, r) ≠ (q, id) := fun heq => hr (congrArg Prod.snd heq)
        rw [if_neg hne, h.sessions]
        constructor
        · rintro ⟨hq, hmem⟩
          exact ⟨hq, hmem, hr⟩
        · rintro ⟨hq, hmem, -⟩
          exact ⟨hq, hmem⟩
    · have hne : (q, r) ≠ (pod, id) := fun heq => hqp (congrArg Prod.fst heq)
      rw [if_neg hne, if_neg hqp, h.sessions]
      constructor
      · rintro ⟨hq, hmem⟩
        rw [if_neg hq]
        exact ⟨hq, hmem⟩
      · rintro ⟨hq, hmem⟩
        rw [if_neg hq] at hmem
        exact ⟨hq, hmem⟩
  · intro q r i reg hi hreg
    rw [hindexOf] at hi
    rw [hregisteredOf] at hreg
    split_ifs at hi hreg with heq
    have hmem := h.registered q r i reg hi hreg
    rw [hmirrors]
    refine List.mem_filter.mpr ⟨hmem, ?_⟩
    rw [decide_eq_true_eq]
    rintro rfl
    -- Another client of the same registration would have the same pod, index and seat.
    obtain ⟨hown', hdest'⟩ := List.mem_filter.mp hmem
    rw [decide_eq_true_eq, hdest] at hdest'
    obtain rfl := Option.some_inj.mp hdest'
    have hi' : i = idx :=
      congrArg Prod.snd (List.inj_on_of_nodup_map (h.ids _) hown' hregistered rfl)
    obtain ⟨-, hseat'⟩ := (h.sessions pod r i).mp hi
    have hr : r = id :=
      congrArg Prod.fst (List.inj_on_of_nodup_map (h.indices pod) hseat' hseat hi')
    exact heq (by rw [hr])

end Layout.Placed

/-! ## Joins and leaves keep the layout -/

theorem Room.seats_removePeer (r : Room) (q : Uuid) :
    (r.removePeer q).seats = r.seats.filter fun s => s.1 ≠ q := by
  unfold Room.removePeer
  cases h : r.find? q with
  | some peer =>
    dsimp only
    rw [Room.seats_erase, Room.peerId_of_find? h]
  | none =>
    refine (List.filter_eq_self.mpr fun s hs => ?_).symm
    rw [decide_eq_true_eq]
    rintro rfl
    have hsome := Room.mem_ids.mp (List.mem_map_of_mem (f := Prod.fst) hs)
    rw [h] at hsome
    cases hsome

theorem Room.seats_departure (r : Room) (b : Bool) (hq : (r.find? q).isSome) :
    (departure r q b).1.seats = r.seats.filter fun s => s.1 ≠ q := by
  obtain ⟨p, hp⟩ := Option.isSome_iff_exists.mp hq
  have herase : (r.erase p).seats = r.seats.filter fun s => s.1 ≠ q := by
    rw [Room.seats_erase, Room.peerId_of_find? hp]
  rcases departure_cases r q b with ⟨hnone, -⟩ | ⟨peer, hpeer, h | ⟨-, -, h⟩⟩
  · rw [hnone] at hp
    cases hp
  · rw [h]
    rw [hp] at hpeer
    cases hpeer
    exact herase
  · rw [h]
    rw [hp] at hpeer
    cases hpeer
    exact herase

theorem Room.Allocated.congr {r' : Room} (h : r.Allocated) (hseats : r'.seats = r.seats)
    (hfree : r'.guard.free = r.guard.free) (hfresh : r'.guard.nextFresh = r.guard.nextFresh) :
    r'.Allocated := by
  obtain ⟨hbelow, htaken, hfree', hnodup⟩ := h
  exact ⟨by rw [hseats, hfresh]; exact hbelow, by rw [hseats, hfree]; exact htaken,
    by rw [hfree, hfresh]; exact hfree', by rw [hfree]; exact hnodup⟩

theorem Room.Allocated.removePeer (h : r.Allocated) (hindices : (r.seats.map Prod.snd).Nodup)
    (q : Uuid) : (r.removePeer q).Allocated := by
  unfold Room.removePeer
  cases hq : r.find? q with
  | none => exact h
  | some peer => exact h.erase hq hindices

theorem Room.Allocated.departure (h : r.Allocated) (hindices : (r.seats.map Prod.snd).Nodup)
    (q : Uuid) (remote : Bool) : (departure r q remote).1.Allocated := by
  rcases departure_cases r q remote with ⟨-, heq⟩ | ⟨peer, hpeer, heq | ⟨-, -, heq⟩⟩
  · rw [heq]
    exact h
  · rw [heq]
    exact h.erase hpeer hindices
  · rw [heq]
    exact (h.erase hpeer hindices).congr rfl rfl rfl

def Room.Quiet (r : Room) : Prop := ∀ p ∈ r.peers, p.audio = []

variable {peerId : Uuid} {pubkey : String}

theorem Room.quiet_insert (h : r.Quiet) : (r.insert g peerId pubkey idx).Quiet := by
  intro p hp
  rcases List.mem_append.mp hp with hp | hp
  · exact h p hp
  · rw [List.mem_singleton.mp hp]

theorem Room.quiet_erase (h : r.Quiet) (peer : AudioPeer) : (r.erase peer).Quiet :=
  fun p hp => h p (List.mem_of_mem_filter hp)

theorem Room.quiet_removePeer (h : r.Quiet) (q : Uuid) : (r.removePeer q).Quiet := by
  unfold Room.removePeer
  cases r.find? q with
  | none => exact h
  | some peer => exact Room.quiet_erase h peer

theorem Room.quiet_departure (h : r.Quiet) (q : Uuid) (remote : Bool) :
    (departure r q remote).1.Quiet := by
  rcases departure_cases r q remote with ⟨-, heq⟩ | ⟨peer, -, heq | ⟨-, -, heq⟩⟩
  · rw [heq]
    exact h
  · rw [heq]
    exact Room.quiet_erase h peer
  · rw [heq]
    exact Room.quiet_erase h peer

@[simp] theorem Mesh.room_setRoom (w : Mesh) (pod q : RuntimeId) (r : Room) :
    (w.setRoom pod r).room q = if q = pod then r else w.room q := by
  rw [Mesh.room, Mesh.setRoom, Table.get?_set]
  split_ifs <;> rfl

theorem Mesh.room_cleanup (w : Mesh) (pod q : RuntimeId) :
    (w.cleanup pod).room q = w.room q ∨
      (w.room q).peers = [] ∧ (w.cleanup pod).room q = Room.new := by
  unfold Mesh.cleanup
  split_ifs with hempty
  · by_cases hq : q = pod
    · subst hq
      refine Or.inr ⟨List.isEmpty_iff.mp hempty, ?_⟩
      rw [Mesh.room, Table.get?_remove, if_pos rfl]
      rfl
    · left
      rw [Mesh.room, Table.get?_remove, if_neg hq]
      rfl
  · exact Or.inl rfl

theorem Mesh.seats_cleanup (w : Mesh) (pod q : RuntimeId) :
    ((w.cleanup pod).room q).seats = (w.room q).seats := by
  rcases w.room_cleanup pod q with h | ⟨hempty, h⟩
  · rw [h]
  · rw [h, Room.seats, Room.seats, hempty]
    rfl

theorem Mesh.cleanup_fields (w : Mesh) (pod : RuntimeId) :
    (w.cleanup pod).sinks = w.sinks ∧ (w.cleanup pod).sessions = w.sessions ∧
      (w.cleanup pod).fenced = w.fenced ∧ (w.cleanup pod).network = w.network ∧
      (w.cleanup pod).sent = w.sent ∧ (w.cleanup pod).heard = w.heard ∧
      (w.cleanup pod).floors = w.floors ∧ (w.cleanup pod).lost = w.lost := by
  unfold Mesh.cleanup
  split_ifs <;> exact ⟨rfl, rfl, rfl, rfl, rfl, rfl, rfl, rfl⟩

structure Mesh.Setup (w : Mesh) : Prop where
  placed : w.layout.Placed
  allocated : (w.room w.owner).Allocated
  quiet : ∀ pod, (w.room pod).Quiet
  sinks : ∀ id s, w.sinks.get? id = some s → s.fenced = w.fenced
  sessions : ∀ p s, w.sessions.get? p = some s → s.fenced = w.fenced ∧ s.owner = w.owner
  network : w.network = []
  sent : w.sent = []
  heard : w.heard = ∅
  floors : w.floors = ∅
  lost : w.lost = false

theorem Mesh.setup_init (fenced : FencedHeader) : (Mesh.init fenced).Setup where
  placed := {
    ids := fun _ => List.nodup_nil
    indices := fun _ => List.nodup_nil
    mirror := fun _ _ => List.Perm.refl _
    sinks := fun _ _ h => by cases h
    sessions := fun _ _ _ => ⟨fun h => (by cases h), fun h => (by cases h.2)⟩
    registered := fun _ _ _ _ h => by cases h }
  allocated := Room.allocated_new
  quiet _ p h := by cases h
  sinks _ _ h := by cases h
  sessions _ _ h := by cases h
  network := rfl
  sent := rfl
  heard := rfl
  floors := rfl
  lost := rfl

variable {version : UInt8} {pod : RuntimeId}

namespace Mesh.Setup

variable {w : Mesh}

theorem join_owner (h : w.Setup) (hid : ((w.room w.owner).find? peerId).isSome = false)
    (hadd : (w.room w.owner).addPeer peerId pubkey version = .ok (r, idx)) :
    (w.setRoom w.owner r).Setup := by
  obtain ⟨-, -, g, halloc, rfl⟩ := Room.addPeer_eq_ok hadd
  obtain ⟨hidx, hallocated⟩ := h.allocated.alloc halloc peerId pubkey version
  have hroom : ∀ q, ((w.setRoom w.owner ((w.room w.owner).insert (g.pin version) peerId pubkey
      idx)).room q) = if q = w.owner then (w.room w.owner).insert (g.pin version) peerId pubkey idx
        else w.room q := fun q => Mesh.room_setRoom ..
  refine { h with placed := ?_, allocated := ?_, quiet := ?_ }
  · refine h.placed.join_owner peerId idx rfl ?_ rfl rfl rfl ?_ hidx
    · intro q
      change ((w.setRoom w.owner _).room q).seats =
        if q = w.owner then (w.room w.owner).seats ++ [(peerId, idx)] else (w.room q).seats
      rw [hroom]
      split_ifs
      · exact Room.seats_insert ..
      · rfl
    · intro hmem
      have hsome : ((w.room w.owner).find? peerId).isSome = true := Room.mem_ids.mp hmem
      rw [hid] at hsome
      cases hsome
  · change ((w.setRoom w.owner _).room w.owner).Allocated
    rw [hroom, if_pos rfl]
    exact hallocated
  · intro q
    rw [hroom]
    split_ifs
    · exact Room.quiet_insert (h.quiet _)
    · exact h.quiet q

theorem join_remote (h : w.Setup) {registeredId : Uuid} {g' : AdmissionGuard} (hpod : pod ≠ w.owner)
    (hid : ((w.room pod).find? peerId).isSome = false)
    (hregistered : ((w.room w.owner).find? registeredId).isSome = false)
    (halloc : (w.room w.owner).guard.alloc = some (idx, g))
    (hfree : ∀ p ∈ (w.room pod).peers, p.peerIndex ≠ idx) : Mesh.Setup { w with
      rooms := (w.rooms.set w.owner
        ((w.room w.owner).insert (g.pin version) registeredId pubkey idx)).set pod
          ((w.room pod).insert g' peerId pubkey idx)
      sinks := w.sinks.set registeredId ⟨pod, w.fenced, 0⟩
      sessions := w.sessions.set (pod, peerId) ⟨idx, w.fenced, w.owner, 0, registeredId⟩ } := by
  obtain ⟨hidx, hallocated⟩ := h.allocated.alloc halloc registeredId pubkey version
  have hnone : ∀ {q : RuntimeId} {i : Uuid}, ((w.room q).find? i).isSome = false →
      i ∉ (w.room q).seats.map Prod.fst := by
    intro q i hi hmem
    have hsome := Room.mem_ids.mp hmem
    rw [hi] at hsome
    cases hsome
  have hroom : ∀ q, Mesh.room { w with
      rooms := (w.rooms.set w.owner
        ((w.room w.owner).insert (g.pin version) registeredId pubkey idx)).set pod
          ((w.room pod).insert g' peerId pubkey idx)
      sinks := w.sinks.set registeredId ⟨pod, w.fenced, 0⟩
      sessions := w.sessions.set (pod, peerId) ⟨idx, w.fenced, w.owner, 0, registeredId⟩ } q =
      if q = pod then (w.room pod).insert g' peerId pubkey idx
      else if q = w.owner then (w.room w.owner).insert (g.pin version) registeredId pubkey idx
      else w.room q := by
    intro q
    rw [Mesh.room, Table.get?_set, Table.get?_set]
    split_ifs <;> rfl
  refine { h with placed := ?_, allocated := ?_, quiet := ?_, sinks := ?_, sessions := ?_ }
  · refine h.placed.join_remote pod peerId registeredId idx rfl hpod ?_ ?_ ?_ ?_ (hnone hid)
      (hnone hregistered) ?_ hidx
    · intro q
      change (Mesh.room _ q).seats = if q = pod then (w.room pod).seats ++ [(peerId, idx)]
        else if q = w.owner then (w.room w.owner).seats ++ [(registeredId, idx)]
        else (w.room q).seats
      rw [hroom]
      split_ifs
      · exact Room.seats_insert ..
      · exact Room.seats_insert ..
      · rfl
    · intro q
      change (Table.get? (Table.set w.sinks registeredId _) q).map _ = if _ then _ else _
      rw [Table.get?_set]
      split_ifs <;> rfl
    · intro q
      change (Table.get? (Table.set w.sessions (pod, peerId) _) q).map _ = if _ then _ else _
      rw [Table.get?_set]
      split_ifs <;> rfl
    · intro q
      change (Table.get? (Table.set w.sessions (pod, peerId) _) q).map _ = if _ then _ else _
      rw [Table.get?_set]
      split_ifs <;> rfl
    · intro hmem
      obtain ⟨s, hs, hsidx⟩ := List.mem_map.mp hmem
      obtain ⟨p, hp, rfl⟩ := List.mem_map.mp hs
      exact hfree p hp hsidx
  · change (Mesh.room _ w.owner).Allocated
    rw [hroom, if_neg (Ne.symm hpod), if_pos rfl]
    exact hallocated
  · intro q
    rw [hroom]
    split_ifs
    · exact Room.quiet_insert (h.quiet _)
    · exact Room.quiet_insert (h.quiet _)
    · exact h.quiet q
  · intro id s hs
    change (Table.get? (Table.set w.sinks registeredId _) id) = some s at hs
    rw [Table.get?_set] at hs
    split_ifs at hs
    · cases hs
      rfl
    · exact h.sinks id s hs
  · intro p s hs
    change (Table.get? (Table.set w.sessions (pod, peerId) _) p) = some s at hs
    rw [Table.get?_set] at hs
    split_ifs at hs
    · cases hs
      exact ⟨rfl, rfl⟩
    · exact h.sessions p s hs

theorem join_undone (h : w.Setup) {registeredId : Uuid}
    (hregistered : ((w.room w.owner).find? registeredId).isSome = false)
    (halloc : (w.room w.owner).guard.alloc = some (idx, g)) :
    Mesh.Setup (unregisterPeer { w.setRoom w.owner
        ((w.room w.owner).insert (g.pin version) registeredId pubkey idx) with
      sinks := w.sinks.set registeredId ⟨pod, w.fenced, 0⟩ } registeredId) := by
  obtain ⟨hidx, hallocated⟩ := h.allocated.alloc halloc registeredId pubkey version
  have hnone : registeredId ∉ (w.room w.owner).seats.map Prod.fst := by
    intro hmem
    have hsome := Room.mem_ids.mp hmem
    rw [hregistered] at hsome
    cases hsome
  have hunset : (w.sinks.get? registeredId).map (·.dest) = none := by
    rw [Option.eq_none_iff_forall_ne_some]
    intro dest hdest
    exact hnone (h.placed.sinks registeredId dest hdest).2
  have hroom : ∀ q, Mesh.room (unregisterPeer { w.setRoom w.owner
      ((w.room w.owner).insert (g.pin version) registeredId pubkey idx) with
        sinks := w.sinks.set registeredId ⟨pod, w.fenced, 0⟩ } registeredId) q =
      if q = w.owner then
        ((w.room w.owner).insert (g.pin version) registeredId pubkey idx).removePeer registeredId
      else w.room q := by
    intro q
    rw [unregisterPeer]
    change Mesh.room ((w.setRoom w.owner _).setRoom w.owner
      (((w.setRoom w.owner _).room w.owner).removePeer registeredId)) q = _
    rw [Mesh.room_setRoom, Mesh.room_setRoom, if_pos rfl, Mesh.room_setRoom]
    split_ifs <;> rfl
  refine { h with placed := ?_, allocated := ?_, quiet := ?_, sinks := ?_ }
  · refine Eq.mpr (congrArg Layout.Placed ?_) h.placed
    ext1
    · rfl
    · funext q
      change (Mesh.room _ q).seats = (w.room q).seats
      rw [hroom]
      split_ifs with hq
      · rw [Room.seats_removePeer, Room.seats_insert, hq, List.filter_append, List.filter_eq_self.mpr]
        · simp
        · intro s hs
          rw [decide_eq_true_eq]
          rintro rfl
          exact hnone (List.mem_map_of_mem hs)
      · rfl
    · funext q
      change (Table.get? (Table.remove (Table.set w.sinks registeredId _) _) q).map _ =
        (w.sinks.get? q).map _
      rw [Table.get?_remove, Table.get?_set]
      split_ifs with hq
      · rw [hq]
        exact hunset.symm
      · rfl
    · rfl
    · rfl
  · change (Mesh.room _ w.owner).Allocated
    rw [hroom, if_pos rfl]
    refine hallocated.removePeer ?_ registeredId
    rw [Room.seats_insert]
    exact nodup_map_append (h.placed.indices w.owner) hidx
  · intro q
    rw [hroom]
    split_ifs
    · exact Room.quiet_removePeer (Room.quiet_insert (h.quiet _)) _
    · exact h.quiet q
  · intro id s hs
    change Table.get? (Table.remove (Table.set w.sinks registeredId _) _) id = some s at hs
    rw [Table.get?_remove, Table.get?_set] at hs
    split_ifs at hs
    exact h.sinks id s hs

theorem leave_owner (h : w.Setup) (hlocal : w.sinks.get? peerId = none)
    (hseats : r.seats = (w.room w.owner).seats.filter fun s => s.1 ≠ peerId)
    (hallocated : r.Allocated) (hquiet : r.Quiet) : (w.setRoom w.owner r).Setup := by
  refine { h with placed := ?_, allocated := ?_, quiet := ?_ }
  · refine h.placed.leave_owner peerId rfl ?_ rfl rfl rfl ?_
    · intro q
      change ((w.setRoom w.owner r).room q).seats =
        if q = w.owner then (w.room w.owner).seats.filter fun s => s.1 ≠ peerId
        else (w.room q).seats
      rw [Mesh.room_setRoom]
      split_ifs
      · exact hseats
      · rfl
    · change (w.sinks.get? peerId).map _ = none
      rw [hlocal]
      rfl
  · change ((w.setRoom w.owner r).room w.owner).Allocated
    rw [Mesh.room_setRoom, if_pos rfl]
    exact hallocated
  · intro q
    rw [Mesh.room_setRoom]
    split_ifs
    · exact hquiet
    · exact h.quiet q

theorem cleanup (h : w.Setup) (pod : RuntimeId) : (w.cleanup pod).Setup := by
  obtain ⟨hsinks, hsessions, hfenced, hnetwork, hsent, hheard, hfloors, hlost⟩ :=
    Mesh.cleanup_fields w pod
  have howner : (w.cleanup pod).owner = w.owner := congrArg FencedHeader.ownerRuntimeId hfenced
  refine ⟨?_, ?_, ?_, ?_, ?_, hnetwork ▸ h.network, hsent ▸ h.sent, hheard ▸ h.heard,
    hfloors ▸ h.floors, hlost ▸ h.lost⟩
  · refine Eq.mpr (congrArg Layout.Placed ?_) h.placed
    ext1
    · exact howner
    · exact funext fun q => w.seats_cleanup pod q
    · rw [Mesh.layout, hsinks]
      rfl
    · rw [Mesh.layout, hsessions]
      rfl
    · rw [Mesh.layout, hsessions]
      rfl
  · rw [howner]
    rcases w.room_cleanup pod w.owner with hq | ⟨-, hq⟩
    · rw [hq]
      exact h.allocated
    · rw [hq]
      exact Room.allocated_new
  · intro q
    rcases w.room_cleanup pod q with hq | ⟨-, hq⟩
    · rw [hq]
      exact h.quiet q
    · rw [hq]
      intro p hp
      cases hp
  · rw [hsinks, hfenced]
    exact h.sinks
  · rw [hsessions, hfenced, howner]
    exact h.sessions

theorem leave_remote (h : w.Setup) {session : RemoteHuddleSession}
    (hsession : w.sessions.get? (pod, peerId) = some session) :
    Mesh.Setup { unregisterPeer ((w.setRoom pod ((w.room pod).removePeer peerId)).cleanup pod)
        session.registered with
      sessions := w.sessions.remove (pod, peerId) } := by
  obtain ⟨hsinks, -, hfenced, hnetwork, hsent, hheard, hfloors, hlost⟩ :=
    Mesh.cleanup_fields (w.setRoom pod ((w.room pod).removePeer peerId)) pod
  have howner : ((w.setRoom pod ((w.room pod).removePeer peerId)).cleanup pod).owner = w.owner :=
    congrArg FencedHeader.ownerRuntimeId hfenced
  have hindex : w.layout.indexOf (pod, peerId) = some session.peerIndex := by
    change (w.sessions.get? (pod, peerId)).map _ = _
    rw [hsession]
    rfl
  have hregistered : w.layout.registeredOf (pod, peerId) = some session.registered := by
    change (w.sessions.get? (pod, peerId)).map _ = _
    rw [hsession]
    rfl
  obtain ⟨hpod, hseat⟩ := (h.placed.sessions pod peerId session.peerIndex).mp hindex
  change pod ≠ w.owner at hpod
  have hcleaned : ∀ q, q ≠ pod →
      ((w.setRoom pod ((w.room pod).removePeer peerId)).cleanup pod).room q = w.room q := by
    intro q hq
    unfold Mesh.cleanup
    split_ifs
    · rw [Mesh.room, Table.get?_remove, if_neg hq]
      exact (Mesh.room_setRoom ..).trans (if_neg hq)
    · rw [Mesh.room_setRoom, if_neg hq]
  -- The owner's room after the departure, then the others.
  have hown : Mesh.room (unregisterPeer ((w.setRoom pod ((w.room pod).removePeer peerId)).cleanup
      pod) session.registered) w.owner = (w.room w.owner).removePeer session.registered := by
    rw [unregisterPeer]
    change Mesh.room (Mesh.setRoom _ _ _) _ = _
    rw [Mesh.room_setRoom, howner, if_pos rfl, hcleaned w.owner (Ne.symm hpod)]
  have hother : ∀ q, q ≠ w.owner → Mesh.room (unregisterPeer
      ((w.setRoom pod ((w.room pod).removePeer peerId)).cleanup pod) session.registered) q =
        ((w.setRoom pod ((w.room pod).removePeer peerId)).cleanup pod).room q := by
    intro q hq
    rw [unregisterPeer]
    change Mesh.room (Mesh.setRoom _ _ _) _ = _
    rw [Mesh.room_setRoom, howner, if_neg hq]
  refine ⟨?_, ?_, ?_, ?_, ?_, hnetwork.trans h.network, hsent.trans h.sent, hheard.trans h.heard,
    hfloors.trans h.floors, hlost.trans h.lost⟩
  · refine h.placed.leave_remote pod peerId session.registered session.peerIndex howner hpod ?_ ?_ ?_
      ?_ hseat (h.placed.registered pod peerId _ _ hindex hregistered)
    · intro q
      change (Mesh.room (unregisterPeer _ _) q).seats =
        if q = pod then (w.room pod).seats.filter fun s => s.1 ≠ peerId
        else if q = w.owner then (w.room w.owner).seats.filter fun s => s.1 ≠ session.registered
        else (w.room q).seats
      split_ifs with hq hqo
      · rw [hq, hother pod hpod, Mesh.seats_cleanup, Mesh.room_setRoom, if_pos rfl,
          Room.seats_removePeer]
      · rw [hqo, hown, Room.seats_removePeer]
      · rw [hother q hqo, hcleaned q hq]
    · intro q
      change (Table.get? (Table.remove (Mesh.sinks (Mesh.cleanup _ _)) _) q).map _ =
        if q = session.registered then none else (w.sinks.get? q).map _
      rw [Table.get?_remove, hsinks]
      split_ifs <;> rfl
    · intro q
      change (Table.get? (Table.remove w.sessions _) q).map _ = if _ then _ else _
      rw [Table.get?_remove]
      split_ifs <;> rfl
    · intro q
      change (Table.get? (Table.remove w.sessions _) q).map _ = if _ then _ else _
      rw [Table.get?_remove]
      split_ifs <;> rfl
  · change (Mesh.room (unregisterPeer _ _) (Mesh.owner (Mesh.cleanup _ _))).Allocated
    rw [howner, hown]
    exact h.allocated.removePeer (h.placed.indices w.owner) _
  · intro q
    change (Mesh.room (unregisterPeer _ _) q).Quiet
    by_cases hqo : q = w.owner
    · rw [hqo, hown]
      exact Room.quiet_removePeer (h.quiet _) _
    · rw [hother q hqo]
      rcases Mesh.room_cleanup (w.setRoom pod ((w.room pod).removePeer peerId)) pod q with
        hq | ⟨-, hq⟩
      · rw [hq, Mesh.room_setRoom]
        split_ifs
        · exact Room.quiet_removePeer (h.quiet _) _
        · exact h.quiet q
      · rw [hq]
        intro p hp
        cases hp
  · intro id s hs
    change Table.get? (Table.remove (Mesh.sinks (Mesh.cleanup _ _)) _) id = some s at hs
    rw [Table.get?_remove, hsinks] at hs
    split_ifs at hs
    exact (h.sinks id s hs).trans hfenced.symm
  · intro p s hs
    change Table.get? (Table.remove w.sessions _) p = some s at hs
    rw [Table.get?_remove] at hs
    split_ifs at hs
    obtain ⟨hf, ho⟩ := h.sessions p s hs
    exact ⟨hf.trans hfenced.symm, ho.trans howner.symm⟩

end Mesh.Setup

theorem setup_membership {w w' : Mesh} {a : Membership} (h : w.Setup)
    (hstep : membershipStep w a = some w') : w'.Setup := by
  cases a with
  | join pod peerId registeredId pubkey version =>
    simp only [membershipStep] at hstep
    split_ifs at hstep with hfresh hpod
    · simp only [Bool.or_eq_true, not_or, Bool.not_eq_true] at hfresh
      split at hstep
      · cases hstep
        exact h
      · next r idx hadd =>
        cases hstep
        subst hpod
        exact h.join_owner hfresh.1 hadd
    · simp only [Bool.or_eq_true, not_or, Bool.not_eq_true] at hfresh
      split at hstep
      · cases hstep
        exact h
      · next w₁ idx hregister =>
        unfold registerRemotePeer at hregister
        split at hregister
        · cases hregister
        · next r₁ i hadd =>
          obtain ⟨-, -, g, halloc, rfl⟩ := Room.addPeer_eq_ok hadd
          cases hregister
          split at hstep
          · cases hstep
            exact h.join_undone hfresh.2 halloc
          · next r hingress =>
            cases hstep
            have hroom : Mesh.room { w.setRoom w.owner ((w.room w.owner).insert (g.pin version)
                registeredId pubkey idx) with
                  sinks := w.sinks.set registeredId ⟨pod, w.fenced, 0⟩ } pod = w.room pod :=
              (Mesh.room_setRoom ..).trans (if_neg hpod)
            rw [hroom] at hingress
            obtain ⟨-, -, hfree, rfl⟩ := Room.addPeerAtIndex_eq_ok hingress
            exact h.join_remote hpod hfresh.1 hfresh.2 halloc hfree
  | leave pod peerId archiveFails =>
    simp only [membershipStep] at hstep
    by_cases hthere : ((w.room pod).find? peerId).isNone = true
    · rw [if_pos hthere] at hstep
      cases hstep
    have hfind : ((w.room pod).find? peerId).isSome := by
      rw [Bool.not_eq_true, Option.isNone_eq_false_iff] at hthere
      exact hthere
    rw [if_neg hthere] at hstep
    cases hsession : w.sessions.get? (pod, peerId) with
    | some session =>
      rw [hsession] at hstep
      cases hstep
      exact h.leave_remote hsession
    | none =>
      rw [hsession] at hstep
      -- A peer without a session is on the pod of the owner.
      have hpod : pod = w.owner := by
        obtain ⟨p, hp⟩ := Option.isSome_iff_exists.mp hfind
        by_contra hne
        have hindex := (h.placed.sessions pod peerId p.peerIndex).mpr ⟨hne, Room.mem_seats hp⟩
        change (w.sessions.get? (pod, peerId)).map _ = _ at hindex
        rw [hsession] at hindex
        cases hindex
      subst hpod
      have hseats := Room.seats_departure (w.room w.owner) false hfind
      have hallocated := h.allocated.departure (h.placed.indices w.owner) peerId false
      have hquiet := Room.quiet_departure (h.quiet w.owner) peerId false
      dsimp only at hstep
      split_ifs at hstep with hsink hlast
      · have hlocal : w.sinks.get? peerId = none := by simpa using hsink
        cases hstep
        exact h.leave_owner hlocal hseats (hallocated.congr rfl rfl rfl) hquiet
      · have hlocal : w.sinks.get? peerId = none := by simpa using hsink
        cases hstep
        exact (h.leave_owner hlocal hseats hallocated hquiet).cleanup w.owner

end Vingilot.Huddle
