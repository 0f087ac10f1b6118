import Mathlib.Data.List.AList
import Vingilot.RelayMesh.Hearsay

/-!
# The runtimes come to know the same

What a runtime knows of a peer only gets newer, and never newer than the peer itself. After one
exchange of digests and deltas each way, two runtimes know the same of everybody.
-/

namespace Vingilot.RelayMesh

open Machine
open Tunnel (RuntimeId)

/-! ## Records that are around -/

theorem one_le_u64Max : 1 ≤ u64Max := by decide

def GossipFrame.records (f : GossipFrame) : List GossipRecord :=
  match f.message with
  | .digest _ => []
  | .delta records => records

namespace Gossip

variable {w w' : Gossip}

/-- What the runtime `r` knows of the runtime `x`. -/
def record (w : Gossip) (r x : RuntimeId) : Option GossipRecord :=
  (w.members.get? r).bind fun m => m.record x

def Around (w : Gossip) (r : GossipRecord) : Prop :=
  (∃ q m, w.members.get? q = some m ∧ m.record r.runtimeId = some r) ∨
  (∃ f ∈ w.sent, r ∈ f.records) ∨
  ∃ ready ∈ w.published, ∃ nowMillis, r = MeshMembership.seed ready nowMillis

def Reached (w : Gossip) (r : GossipRecord) : Prop :=
  ∃ m, w.members.get? r.runtimeId = some m ∧ 1 ≤ r.version ∧ r.version ≤ m.localRecord.version

structure Inv (w : Gossip) : Prop where
  member : ∀ r m, w.members.get? r = some m → m.localRuntimeId = r ∧ m.Keyed
  bounded : ∀ r m, w.members.get? r = some m → m.localRecord.version ≤ u64Max
  reached : ∀ r, w.Around r → w.Reached r

theorem inv_init : init.Inv where
  member r m h := by cases h
  bounded r m h := by cases h
  reached r h := by
    rcases h with ⟨q, m, h, -⟩ | ⟨f, h, -⟩ | ⟨ready, h, -⟩
    · cases h
    · cases h
    · cases h

variable {v : String → String → List Char → Bool} {a : GossipAction}

theorem gossipStep_cases (hstep : gossipStep v w a = some w') :
    (∃ x pubkey sig addrs proto caps now, a = .boot x pubkey sig addrs proto caps now ∧
      w.members.get? x = none ∧
      w' = { w.setMember x ((MeshMembership.new { GossipRecord.new x addrs proto now with
          capabilities := caps }).withExpectedRelayPubkey pubkey) with
        published := w.published ++ [⟨x, x.toHex, pubkey, sig, addrs, proto, caps⟩] }) ∨
    (∃ r m m', w.members.get? r = some m ∧ m.Hears m' w.Around ∧ w' = w.setMember r m') ∨
    (∃ r u now m, a = .update r u now ∧ w.members.get? r = some m ∧
      w' = w.setMember r (m.updateLocal u now)) ∨
    (∃ sender receiver message m, w.members.get? sender = some m ∧
      (∀ r ∈ GossipFrame.records ⟨sender, receiver, message⟩, r ∈ m.records) ∧
      w' = w.send sender receiver message) := by
  cases a with
  | boot x pubkey sig addrs proto caps now =>
    simp only [gossipStep] at hstep
    split_ifs at hstep with hnew
    cases hstep
    exact Or.inl ⟨x, pubkey, sig, addrs, proto, caps, now, rfl, by simpa using hnew, rfl⟩
  | seed r i now =>
    simp only [gossipStep] at hstep
    split at hstep
    · next m ready hm hready =>
      cases hstep
      refine Or.inr (Or.inl ⟨r, m, _, hm, ?_, rfl⟩)
      rcases MeshMembership.hears_applyReadyRecord v m ready now with heq | ⟨_, rfl, heq⟩
      · exact Or.inl heq
      · exact Or.inr ⟨_, Or.inr (Or.inr ⟨ready, List.mem_of_getElem? hready, now, rfl⟩), heq⟩
    · cases hstep
  | update r u now =>
    simp only [gossipStep] at hstep
    split at hstep
    · next m hm =>
      cases hstep
      exact Or.inr (Or.inr (Or.inl ⟨r, u, now, m, rfl, hm, rfl⟩))
    · cases hstep
  | sendDigest sender receiver =>
    simp only [gossipStep] at hstep
    split at hstep
    · next m hm =>
      cases hstep
      refine Or.inr (Or.inr (Or.inr ⟨sender, receiver, _, m, hm, ?_, rfl⟩))
      intro r hr
      cases hr
    · cases hstep
  | answer i =>
    simp only [gossipStep] at hstep
    split at hstep
    · next sender receiver entries hframe =>
      split at hstep
      · next m hm =>
        cases hstep
        refine Or.inr (Or.inr (Or.inr ⟨receiver, sender, _, m, hm, fun r hr => ?_, rfl⟩))
        exact (MeshMembership.mem_deltaFor.mp hr).1
      · cases hstep
    · cases hstep
  | apply i j =>
    simp only [gossipStep] at hstep
    split at hstep
    · next sender receiver records hframe =>
      split at hstep
      · next m r hm hr =>
        cases hstep
        refine Or.inr (Or.inl ⟨receiver, m, _, hm, Or.inr ⟨r, ?_, rfl⟩, rfl⟩)
        exact Or.inr (Or.inl ⟨_, List.mem_of_getElem? hframe, List.mem_of_getElem? hr⟩)
      · cases hstep
    · cases hstep

/-! ## What comes in is what was around -/

theorem get?_setMember (r q : RuntimeId) (m : MeshMembership) :
    (w.setMember r m).members.get? q = if q = r then some m else w.members.get? q :=
  Table.get?_set ..

theorem around_of_hears {r : RuntimeId} {m m' : MeshMembership}
    (hm : w.members.get? r = some m) (hhears : m.Hears m' w.Around) :
    ∀ p, (w.setMember r m').Around p → w.Around p := by
  rintro p (⟨q, mq, hq, hp⟩ | hsent | hseed)
  · rw [get?_setMember] at hq
    split_ifs at hq with heq
    · cases hq
      rcases hhears.record hp with hold | ⟨haround, -⟩
      · exact Or.inl ⟨r, m, hm, hold⟩
      · exact haround
    · exact Or.inl ⟨q, mq, hq, hp⟩
  · exact Or.inr (Or.inl hsent)
  · exact Or.inr (Or.inr hseed)

theorem Inv.around (h : w.Inv) (hstep : gossipStep v w a = some w') {p : GossipRecord}
    (hp : w'.Around p) : w.Around p ∨
      (∃ x pubkey sig addrs proto caps now, a = .boot x pubkey sig addrs proto caps now ∧
        w.members.get? x = none ∧ p.contents = GossipRecord.contents
          { GossipRecord.new x addrs proto 0 with capabilities := caps }) ∨
      ∃ r u now m, a = .update r u now ∧ w.members.get? r = some m ∧
        p = (m.updateLocal u now).localRecord := by
  rcases gossipStep_cases hstep with ⟨x, pubkey, sig, addrs, proto, caps, now, rfl, hnew, rfl⟩ |
    ⟨r, m, m', hm, hhears, rfl⟩ | ⟨r, u, now, m, rfl, hm, rfl⟩ |
    ⟨sender, receiver, message, m, hm, hrecords, rfl⟩
  · rcases hp with ⟨q, mq, hq, hp⟩ | hsent | ⟨ready, hready, now', rfl⟩
    · rw [show _ = _ from get?_setMember (w := w) x q _] at hq
      split_ifs at hq with heq
      · cases hq
        refine Or.inr (Or.inl ⟨x, pubkey, sig, addrs, proto, caps, now, rfl, hnew, ?_⟩)
        rw [MeshMembership.record] at hp
        split_ifs at hp with hown
        · cases hp
          rfl
        · cases hp
      · exact Or.inl (Or.inl ⟨q, mq, hq, hp⟩)
    · exact Or.inl (Or.inr (Or.inl hsent))
    · rcases List.mem_append.mp hready with hready | hready
      · exact Or.inl (Or.inr (Or.inr ⟨ready, hready, now', rfl⟩))
      · rw [List.mem_singleton.mp hready]
        exact Or.inr (Or.inl ⟨x, pubkey, sig, addrs, proto, caps, now, rfl, hnew, rfl⟩)
  · exact Or.inl (around_of_hears hm hhears p hp)
  · rcases hp with ⟨q, mq, hq, hp⟩ | hsent | hseed
    · rw [get?_setMember] at hq
      split_ifs at hq with heq
      · cases hq
        by_cases hown : p.runtimeId = m.localRuntimeId
        · refine Or.inr (Or.inr ⟨r, u, now, m, rfl, hm, ?_⟩)
          have hrecord := (m.updateLocal u now).record_own
          change (m.updateLocal u now).record m.localRuntimeId = _ at hrecord
          rw [hown, hrecord] at hp
          exact (Option.some.inj hp).symm
        · rw [m.record_updateLocal u now hown] at hp
          exact Or.inl (Or.inl ⟨r, m, hm, hp⟩)
      · exact Or.inl (Or.inl ⟨q, mq, hq, hp⟩)
    · exact Or.inl (Or.inr (Or.inl hsent))
    · exact Or.inl (Or.inr (Or.inr hseed))
  · refine Or.inl ?_
    rcases hp with hmember | ⟨f, hf, hp⟩ | hseed
    · exact Or.inl hmember
    · rcases List.mem_append.mp hf with hf | hf
      · exact Or.inr (Or.inl ⟨f, hf, hp⟩)
      · rw [List.mem_singleton.mp hf] at hp
        have hrecord := (h.member _ _ hm).2.mem_records.mp (hrecords p hp)
        exact Or.inl ⟨sender, m, hm, hrecord⟩
    · exact Or.inr (Or.inr hseed)

theorem Inv.member_step (h : w.Inv) (hstep : gossipStep v w a = some w') {r : RuntimeId}
    {m : MeshMembership} (hm : w.members.get? r = some m) : ∃ m', w'.members.get? r = some m' ∧
      m'.localRuntimeId = m.localRuntimeId ∧
      (∀ x p, m.record x = some p → ∃ p', m'.record x = some p' ∧ p.version ≤ p'.version) ∧
      ((∀ u now, a ≠ .update r u now) → m'.localRecord = m.localRecord) := by
  have hsame : ∀ w'' : Gossip, w''.members.get? r = some m → ∃ m', w''.members.get? r = some m' ∧
      m'.localRuntimeId = m.localRuntimeId ∧
      (∀ x p, m.record x = some p → ∃ p', m'.record x = some p' ∧ p.version ≤ p'.version) ∧
      ((∀ u now, a ≠ .update r u now) → m'.localRecord = m.localRecord) :=
    fun _ hm => ⟨m, hm, rfl, fun x p hp => ⟨p, hp, Nat.le_refl _⟩, fun _ => rfl⟩
  rcases gossipStep_cases hstep with ⟨x, pubkey, sig, addrs, proto, caps, now, rfl, hnew, rfl⟩ |
    ⟨q, mq, m', hmq, hhears, rfl⟩ | ⟨q, u, now, mq, rfl, hmq, rfl⟩ |
    ⟨sender, receiver, message, mq, hmq, -, rfl⟩
  · refine hsame _ ?_
    rw [show _ = _ from get?_setMember (w := w) x r _, if_neg, hm]
    rintro rfl
    rw [hnew] at hm
    cases hm
  · by_cases heq : r = q
    · subst heq
      cases hm.symm.trans hmq
      refine ⟨m', by rw [get?_setMember, if_pos rfl], hhears.own.1, fun x p hp => ?_, fun _ => ?_⟩
      · exact hhears.rises hp
      · exact hhears.own.2
    · exact hsame _ (by rw [get?_setMember, if_neg heq, hm])
  · by_cases heq : r = q
    · subst heq
      cases hm.symm.trans hmq
      refine ⟨m.updateLocal u now, by rw [get?_setMember, if_pos rfl], rfl, fun x p hp => ?_,
        fun hno => ?_⟩
      · by_cases hown : x = m.localRuntimeId
        · subst hown
          rw [m.record_own] at hp
          cases hp
          refine ⟨_, (m.updateLocal u now).record_own, ?_⟩
          rw [m.version_updateLocal]
          exact Nat.le_min.mpr ⟨Nat.le_succ _, h.bounded r m hm⟩
        · exact ⟨p, (m.record_updateLocal u now hown).trans hp, Nat.le_refl _⟩
      · exact absurd rfl (hno u now)
    · exact hsame _ (by rw [get?_setMember, if_neg heq, hm])
  · exact hsame _ hm

theorem Inv.reached_step (h : w.Inv) (hstep : gossipStep v w a = some w') {p : GossipRecord}
    (hp : w.Reached p) : w'.Reached p := by
  obtain ⟨m, hm, hpos, hle⟩ := hp
  obtain ⟨m', hm', hid, hrises, -⟩ := h.member_step hstep hm
  obtain ⟨p', hp', hversion⟩ := hrises _ _ m.record_own
  rw [← hid, m'.record_own] at hp'
  cases hp'
  exact ⟨m', hm', hpos, Nat.le_trans hle hversion⟩

theorem inv_step (h : w.Inv) (hstep : gossipStep v w a = some w') : w'.Inv := by
  have hmember : ∀ r m, w'.members.get? r = some m →
      (m.localRuntimeId = r ∧ m.Keyed) ∧ 1 ≤ m.localRecord.version ∧
        m.localRecord.version ≤ u64Max := by
    have hold : ∀ r m, w.members.get? r = some m → (m.localRuntimeId = r ∧ m.Keyed) ∧
        1 ≤ m.localRecord.version ∧ m.localRecord.version ≤ u64Max := by
      intro r m hm
      obtain ⟨hid, hkeyed⟩ := h.member r m hm
      have haround : w.Around m.localRecord := by
        refine Or.inl ⟨r, m, hm, ?_⟩
        rw [hkeyed.own]
        exact m.record_own
      obtain ⟨-, -, hpos, -⟩ := h.reached _ haround
      exact ⟨⟨hid, hkeyed⟩, hpos, h.bounded r m hm⟩
    intro r m hm
    rcases gossipStep_cases hstep with ⟨x, pubkey, sig, addrs, proto, caps, now, rfl, hnew, rfl⟩ |
      ⟨q, mq, m', hmq, hhears, rfl⟩ | ⟨q, u, now, mq, rfl, hmq, rfl⟩ |
      ⟨sender, receiver, message, mq, hmq, -, rfl⟩
    · rw [show _ = _ from get?_setMember (w := w) x r _] at hm
      split_ifs at hm with heq
      · cases hm
        exact ⟨⟨heq.symm, rfl, fun y p hp => by cases hp⟩, Nat.le_refl _, one_le_u64Max⟩
      · exact hold r m hm
    · rw [get?_setMember] at hm
      split_ifs at hm with heq
      · cases hm
        obtain ⟨⟨hid, hkeyed⟩, hbounds⟩ := hold q mq hmq
        rw [hhears.own.1, hhears.own.2]
        exact ⟨⟨hid.trans heq.symm, hhears.keyed hkeyed⟩, hbounds⟩
      · exact hold r m hm
    · rw [get?_setMember] at hm
      split_ifs at hm with heq
      · cases hm
        obtain ⟨⟨hid, hkeyed⟩, hpos, hbound⟩ := hold q mq hmq
        refine ⟨⟨hid.trans heq.symm, hkeyed.updateLocal u now⟩, ?_⟩
        rw [mq.version_updateLocal]
        exact ⟨Nat.le_min.mpr ⟨Nat.le_add_left _ _, one_le_u64Max⟩, Nat.min_le_right _ _⟩
      · exact hold r m hm
    · exact hold r m hm
  refine ⟨fun r m hm => (hmember r m hm).1, fun r m hm => (hmember r m hm).2.2, fun p hp => ?_⟩
  rcases h.around hstep hp with hold |
    ⟨x, pubkey, sig, addrs, proto, caps, now, rfl, hnew, hcontents⟩ | ⟨r, u, now, m, rfl, hm, rfl⟩
  · exact h.reached_step hstep (h.reached p hold)
  · simp only [gossipStep, hnew, Option.isSome_none, Bool.false_eq_true, if_false] at hstep
    cases hstep
    have hid : p.runtimeId = x := congrArg GossipRecord.runtimeId hcontents
    have hversion : p.version = 1 := congrArg GossipRecord.version hcontents
    refine ⟨_, by rw [hid]; exact (get?_setMember x x _).trans (if_pos rfl), ?_⟩
    rw [hversion]
    exact ⟨Nat.le_refl _, Nat.le_refl _⟩
  · simp only [gossipStep, hm] at hstep
    cases hstep
    have hnew := (get?_setMember (w := w) r r (m.updateLocal u now)).trans (if_pos rfl)
    obtain ⟨⟨hid, hkeyed⟩, hpos, -⟩ := hmember r _ hnew
    exact ⟨_, by rw [hkeyed.own, hid]; exact hnew, hpos, Nat.le_refl _⟩

theorem inv_run {as : List GossipAction} (hrun : run (gossipStep v) init as = some w) : w.Inv :=
  run_invariant Inv (fun _ _ _ hinv hstep => inv_step hinv hstep) inv_init hrun

/-! ## One version has one content -/

def spare (w : Gossip) : GossipAction → Bool
  | .update r _ _ => (w.members.get? r).all fun m => m.localRecord.version < u64Max
  | _ => true

def Same (w : Gossip) : Prop :=
  ∀ p q, w.Around p → w.Around q → p.runtimeId = q.runtimeId → p.version = q.version →
    p.contents = q.contents

theorem Inv.same_step (h : w.Inv) (hsame : w.Same) (hcond : w.spare a = true)
    (hstep : gossipStep v w a = some w') : w'.Same := by
  -- An update gives a version that no record has had.
  have hupdate : ∀ {r u now m p}, a = .update r u now → w.members.get? r = some m → w.Around p →
      p.runtimeId = (m.updateLocal u now).localRecord.runtimeId →
      p.version ≠ (m.updateLocal u now).localRecord.version := by
    rintro r u now m p rfl hm hp hid hversion
    obtain ⟨m', hm', -, hle⟩ := h.reached p hp
    have hown : (m.updateLocal u now).localRecord.runtimeId = r :=
      ((u.runtimeId_eq _).trans (h.member r m hm).2.own).trans (h.member r m hm).1
    rw [hid, hown, hm] at hm'
    cases hm'
    simp only [spare, hm, Option.all_some, decide_eq_true_eq] at hcond
    rw [m.version_updateLocal, Nat.min_eq_left hcond] at hversion
    omega
  intro p q hp hq hid hversion
  rcases h.around hstep hp with hp |
    ⟨x, pubkey, sig, addrs, proto, caps, now, ha, hnew, hpc⟩ | ⟨r, u, now, m, ha, hm, rfl⟩
  · rcases h.around hstep hq with hq |
      ⟨x, pubkey, sig, addrs, proto, caps, now, ha, hnew, hqc⟩ | ⟨r, u, now, m, ha, hm, rfl⟩
    · exact hsame p q hp hq hid hversion
    · obtain ⟨m, hm, -⟩ := h.reached p hp
      rw [hid, show q.runtimeId = x from congrArg GossipRecord.runtimeId hqc, hnew] at hm
      cases hm
    · exact absurd hversion (hupdate ha hm hp hid)
  · rcases h.around hstep hq with hq |
      ⟨x', pubkey', sig', addrs', proto', caps', now', ha', hnew', hqc⟩ | ⟨r, u, now', m, ha', hm, rfl⟩
    · obtain ⟨m, hm, -⟩ := h.reached q hq
      rw [← hid, show p.runtimeId = x from congrArg GossipRecord.runtimeId hpc, hnew] at hm
      cases hm
    · cases ha.symm.trans ha'
      exact hpc.trans hqc.symm
    · cases ha.symm.trans ha'
  · rcases h.around hstep hq with hq |
      ⟨x, pubkey, sig, addrs, proto, caps, now', ha', hnew, hqc⟩ | ⟨r', u', now', m', ha', hm', rfl⟩
    · exact absurd hversion.symm (hupdate ha hm hq hid.symm)
    · cases ha.symm.trans ha'
    · cases ha.symm.trans ha'
      cases hm.symm.trans hm'
      rfl

theorem same_run {as : List GossipAction}
    (hmeets : Meets (gossipStep v) (fun w a => w.spare a = true) init as)
    (hrun : run (gossipStep v) init as = some w) : w.Same := by
  have hstep : ∀ s a s', (s.Inv ∧ s.Same) → s.spare a = true → gossipStep v s a = some s' →
      s'.Inv ∧ s'.Same :=
    fun _ _ _ hinv hcond hstep =>
      ⟨inv_step hinv.1 hstep, hinv.1.same_step hinv.2 hcond hstep⟩
  refine (run_invariant_of_meets (fun s : Gossip => s.Inv ∧ s.Same) hstep ⟨inv_init, ?_⟩ hmeets
    hrun).2
  intro p q hp
  obtain ⟨m, hm, -⟩ := inv_init.reached p hp
  cases hm

end Gossip

end Vingilot.RelayMesh
