import Vingilot.Lib.Machine
import Vingilot.RelayMesh.Membership

/-!
# What the runtimes hear of each other

Every record around is one that its owner has had, and one version has one content as long as no
update is made at the last version there is.
-/

namespace Vingilot.RelayMesh

open Machine
open Tunnel (RuntimeId)

/-! ## One table -/

variable {x : RuntimeId} {r : GossipRecord}

namespace MeshMembership

def record (m : MeshMembership) (x : RuntimeId) : Option GossipRecord :=
  if x = m.localRuntimeId then some m.localRecord else m.peers.get? x

/-- Every record is kept under its own id, and the runtime's own one is no peer. -/
structure Keyed (m : MeshMembership) : Prop where
  own : m.localRecord.runtimeId = m.localRuntimeId
  peers : ∀ x r, m.peers.get? x = some r → r.runtimeId = x ∧ x ≠ m.localRuntimeId

variable {m : MeshMembership}

theorem Keyed.record (h : m.Keyed) (hr : m.record x = some r) : r.runtimeId = x := by
  unfold MeshMembership.record at hr
  split_ifs at hr with hx
  · cases hr
    exact h.own.trans hx.symm
  · exact (h.peers x r hr).1

theorem Keyed.mem_records (h : m.Keyed) : r ∈ m.records ↔ m.record r.runtimeId = some r := by
  rw [records, List.mem_append, List.mem_singleton, List.mem_map, MeshMembership.record]
  constructor
  · rintro (⟨⟨x, r'⟩, hmem, rfl⟩ | rfl)
    · have hpeer := (Table.mem_toList _ _ _).mp hmem
      obtain ⟨hid, hne⟩ := h.peers x r' hpeer
      rw [if_neg (by rw [hid]; exact hne), hid, hpeer]
    · rw [if_pos h.own]
  · intro hr
    split_ifs at hr with hx
    · exact Or.inr (Option.some.inj hr).symm
    · exact Or.inl ⟨(r.runtimeId, r), (Table.mem_toList _ _ _).mpr hr, rfl⟩

theorem record_applyGossipRecord (m : MeshMembership) (r : GossipRecord) (x : RuntimeId) :
    (m.applyGossipRecord r).1.record x =
      if x = r.runtimeId ∧ x ≠ m.localRuntimeId ∧ (m.record x).all (fun p => p.version < r.version)
      then some r else m.record x := by
  unfold applyGossipRecord
  by_cases hown : r.runtimeId = m.localRuntimeId
  · rw [if_pos hown, if_neg]
    rintro ⟨rfl, hne, -⟩
    exact hne hown
  · rw [if_neg hown]
    by_cases hx : x = r.runtimeId
    · subst hx
      cases hpeer : m.peers.get? r.runtimeId with
      | none => simp [record, hown, hpeer]
      | some p =>
        by_cases hle : r.version ≤ p.version
        · simp [record, hown, hpeer, hle]
        · simp [record, hown, hpeer, hle, Nat.lt_of_not_le hle]
    · cases hpeer : m.peers.get? r.runtimeId with
      | none => simp [record, hx]
      | some p =>
        by_cases hle : r.version ≤ p.version
        · simp [hle, hx]
        · simp [record, hle, hx]

theorem applyGossipRecord_local (m : MeshMembership) (r : GossipRecord) :
    (m.applyGossipRecord r).1.localRuntimeId = m.localRuntimeId ∧
      (m.applyGossipRecord r).1.localRecord = m.localRecord := by
  unfold applyGossipRecord
  split_ifs
  · exact ⟨rfl, rfl⟩
  · split
    · split_ifs <;> exact ⟨rfl, rfl⟩
    · exact ⟨rfl, rfl⟩

theorem Keyed.applyGossipRecord (h : m.Keyed) (r : GossipRecord) :
    (m.applyGossipRecord r).1.Keyed := by
  obtain ⟨hid, hlocal⟩ := applyGossipRecord_local m r
  refine ⟨by rw [hid, hlocal]; exact h.own, fun x p hp => ?_⟩
  rw [hid]
  unfold MeshMembership.applyGossipRecord at hp
  have hset : ∀ {x p}, r.runtimeId ≠ m.localRuntimeId →
      (m.peers.set r.runtimeId r).get? x = some p → p.runtimeId = x ∧ x ≠ m.localRuntimeId := by
    intro x p hne hp
    rw [Table.get?_set] at hp
    split_ifs at hp with hx
    · cases hp
      exact ⟨hx.symm, hx ▸ hne⟩
    · exact h.peers x p hp
  split_ifs at hp with hown
  · exact h.peers x p hp
  · split at hp
    · split_ifs at hp
      · exact h.peers x p hp
      · exact hset hown hp
    · exact hset hown hp

def Hears (m m' : MeshMembership) (around : GossipRecord → Prop) : Prop :=
  m' = m ∨ ∃ r, around r ∧ m' = (m.applyGossipRecord r).1

theorem hears_applyReadyRecord (verifySchnorr : String → String → List Char → Bool)
    (m : MeshMembership) (ready : ReadyRecord) (nowMillis : Nat) :
    m.Hears (m.applyReadyRecord verifySchnorr ready nowMillis) fun r => r = seed ready nowMillis := by
  unfold applyReadyRecord
  split_ifs
  · exact Or.inl rfl
  · exact Or.inl rfl
  · exact Or.inl rfl
  · exact Or.inr ⟨_, rfl, rfl⟩

section

variable {m' : MeshMembership} {around : GossipRecord → Prop}

theorem Hears.own (h : m.Hears m' around) :
    m'.localRuntimeId = m.localRuntimeId ∧ m'.localRecord = m.localRecord := by
  rcases h with rfl | ⟨r, -, rfl⟩
  · exact ⟨rfl, rfl⟩
  · exact applyGossipRecord_local m r

theorem Hears.keyed (h : m.Hears m' around) (hm : m.Keyed) : m'.Keyed := by
  rcases h with rfl | ⟨r, -, rfl⟩
  · exact hm
  · exact hm.applyGossipRecord r

theorem Hears.record (h : m.Hears m' around) (hr : m'.record x = some r) :
    m.record x = some r ∨ (around r ∧ r.runtimeId = x) := by
  rcases h with rfl | ⟨r', haround, rfl⟩
  · exact Or.inl hr
  · rw [record_applyGossipRecord] at hr
    split_ifs at hr with htake
    · cases hr
      exact Or.inr ⟨haround, htake.1.symm⟩
    · exact Or.inl hr

theorem Hears.rises (h : m.Hears m' around) (hr : m.record x = some r) :
    ∃ r', m'.record x = some r' ∧ r.version ≤ r'.version := by
  rcases h with rfl | ⟨r', -, rfl⟩
  · exact ⟨r, hr, Nat.le_refl _⟩
  · rw [record_applyGossipRecord]
    split_ifs with htake
    · refine ⟨r', rfl, ?_⟩
      have hnewer := htake.2.2
      rw [hr] at hnewer
      simp only [Option.all_some, decide_eq_true_eq] at hnewer
      exact Nat.le_of_lt hnewer
    · exact ⟨r, hr, Nat.le_refl _⟩

end

theorem Keyed.updateLocal (h : m.Keyed) (u : LocalUpdate) (nowMillis : Nat) :
    (m.updateLocal u nowMillis).Keyed :=
  ⟨(u.runtimeId_eq _).trans h.own, h.peers⟩

theorem record_updateLocal (m : MeshMembership) (u : LocalUpdate) (nowMillis : Nat)
    (hx : x ≠ m.localRuntimeId) : (m.updateLocal u nowMillis).record x = m.record x := by
  rw [record, record, if_neg hx]
  exact if_neg hx

theorem record_own (m : MeshMembership) : m.record m.localRuntimeId = some m.localRecord :=
  if_pos rfl

theorem version_updateLocal (m : MeshMembership) (u : LocalUpdate) (nowMillis : Nat) :
    (m.updateLocal u nowMillis).localRecord.version = min (m.localRecord.version + 1) u64Max := by
  change min ((u.update m.localRecord).version + 1) u64Max = _
  rw [u.version_eq]

/-! ## Digests and deltas -/

theorem mem_deltaFor {digest : List GossipDigestEntry} : r ∈ m.deltaFor digest ↔ r ∈ m.records ∧
      ((Table.setAll (∅ : Table RuntimeId Nat)
        (digest.map fun e => (e.runtimeId, e.version))).get? r.runtimeId).all
          (fun v => v < r.version) = true := by
  rw [deltaFor, (List.perm_insertionSort _ _).mem_iff, List.mem_filter]

theorem Keyed.get?_digest (h : m.Keyed) (x : RuntimeId) :
    (Table.setAll (∅ : Table RuntimeId Nat)
      (m.digest.map fun e => (e.runtimeId, e.version))).get? x = (m.record x).map (·.version) := by
  have hmem : ∀ x v, (x, v) ∈ m.digest.map (fun e => (e.runtimeId, e.version)) ↔
      ∃ r, m.record x = some r ∧ r.version = v := by
    intro x v
    rw [List.mem_map]
    constructor
    · rintro ⟨e, he, heq⟩
      rw [digest, (List.perm_insertionSort _ _).mem_iff, List.mem_map] at he
      obtain ⟨r, hr, rfl⟩ := he
      rw [Prod.mk.injEq] at heq
      refine ⟨r, ?_, heq.2⟩
      rw [← heq.1]
      exact h.mem_records.mp hr
    · rintro ⟨r, hr, rfl⟩
      have hid := h.record hr
      refine ⟨⟨x, r.version⟩, ?_, rfl⟩
      rw [digest, (List.perm_insertionSort _ _).mem_iff, List.mem_map]
      exact ⟨r, h.mem_records.mpr (by rw [hid, hr]), by rw [hid]⟩
  cases hr : m.record x with
  | none =>
    rw [Table.get?_setAll_of_notMem]
    · rfl
    · intro v hv
      obtain ⟨r, hsome, -⟩ := (hmem x v).mp hv
      rw [hr] at hsome
      cases hsome
  | some r =>
    refine Table.get?_setAll_of_unique _ _ _ _ ((hmem x _).mpr ⟨r, hr, rfl⟩) fun v hv => ?_
    obtain ⟨r', hr', rfl⟩ := (hmem x v).mp hv
    rw [hr] at hr'
    cases hr'
    rfl

end MeshMembership

end Vingilot.RelayMesh
