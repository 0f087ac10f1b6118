import Vingilot.Lib.Machine
import Vingilot.Subscription.FanOut

/-! # The registry's calls as separate map operations

The registry has no lock of its own. A call is a series of operations on concurrent maps,
and the operations of different connections interleave. One connection runs one
call at a time, so the guard `remove_subscription` keeps on its own row of `subs` holds up
nobody else.

`remove_from_index` filters a bucket, sees that it is empty, lets go of it and
removes the key afterwards. A push that lands in between is lost with the key.
-/

namespace Vingilot.Subscription

open Machine

/-- One operation on one of the maps. The connection that runs it is known from
where it is queued. -/
inductive MapOp where
  /-- `subs.get_mut(conn)?.remove(sub)?` -/
  | takeSub (sub : SubId)
  /-- `subs.remove(conn)` -/
  | takeConn
  /-- The read of `subs` that lists the subscriptions of a channel. -/
  | listChannel (communityId : CommunityId) (channelId : Uuid)
  /-- `subs.entry(conn).or_default().insert(sub, ..)` -/
  | insertSub (sub : SubId) (e : SubEntry)
  /-- `index.entry(key).or_default().push(..)` -/
  | push (b : Bucket) (sub : SubId)
  /-- `index.get_mut(key)`, `retain` and `is_empty`, under one guard. -/
  | retain (b : Bucket) (sub : SubId)
  /-- `index.remove(key)` -/
  | dropKey (b : Bucket)
deriving DecidableEq

structure Shared where
  registry : SubscriptionRegistry
  pending : ConnId → List MapOp

def Shared.new : Shared := ⟨.new, fun _ => []⟩

def Call.conn : Call → ConnId
  | .registerScoped _ connId _ _ _ => connId
  | .removeSubscription connId _ => connId
  | .removeConnection connId => connId
  | .removeChannelSubscriptionsScoped _ connId _ => connId

def Call.ops : Call → List MapOp
  | .registerScoped communityId _ subId filters channelId =>
    let e : SubEntry := ⟨filters, communityId, channelId⟩
    .takeSub subId :: .insertSub subId e :: (bucketsFor e).map (.push · subId)
  | .removeSubscription _ subId => [.takeSub subId]
  | .removeConnection _ => [.takeConn]
  | .removeChannelSubscriptionsScoped communityId _ channelId => [.listChannel communityId channelId]

/-- `remove_from_index`, before any bucket is looked at. -/
def retainOps (subId : SubId) (e : SubEntry) : List MapOp := (bucketsFor e).map (.retain · subId)

def exec (r : SubscriptionRegistry) (conn : ConnId) : MapOp → SubscriptionRegistry × List MapOp
  | .takeSub subId =>
    match r.subs.get? conn with
    | none => (r, [])
    | some connSubs =>
      match connSubs.get? subId with
      | none => (r, [])
      | some e =>
        ({ r with subs := r.subs.set conn (connSubs.remove subId) }, retainOps subId e)
  | .takeConn =>
    match r.subs.get? conn with
    | none => (r, [])
    | some connSubs =>
      ({ r with subs := r.subs.remove conn },
        connSubs.toList.flatMap fun (subId, e) => retainOps subId e)
  | .listChannel communityId channelId =>
    (r, (channelSubIds r communityId conn channelId).map .takeSub)
  | .insertSub subId e =>
    ({ r with subs := r.subs.set conn (((r.subs.get? conn).getD ∅).set subId e) }, [])
  | .push b subId => (r.push b (conn, subId), [])
  | .retain b subId =>
    let r' := r.retain b (conn, subId)
    (r', if r'.bucket b = some [] then [.dropKey b] else [])
  | .dropKey b => (r.dropKey b, [])

inductive Action where
  | start (call : Call)
  | tick (conn : ConnId)

def step (s : Shared) : Action → Option Shared
  | .start call =>
    if s.pending call.conn = [] then
      some { s with pending := Function.update s.pending call.conn call.ops }
    else none
  | .tick conn =>
    match s.pending conn with
    | [] => none
    | op :: rest =>
      let (r, more) := exec s.registry conn op
      some ⟨r, Function.update s.pending conn (more ++ rest)⟩

/-! ## One call on its own is the call of `Registry.lean` -/

/-- Left alone, `conn` works through `ops` and takes the registry from `r` to `r'`. -/
def Does (conn : ConnId) (ops : List MapOp) (r r' : SubscriptionRegistry) : Prop :=
  ∀ (pending : ConnId → List MapOp) (rest : List MapOp), ∃ n,
    run step ⟨r, Function.update pending conn (ops ++ rest)⟩ (List.replicate n (.tick conn)) =
      some ⟨r', Function.update pending conn rest⟩

theorem does_nil (conn : ConnId) (r : SubscriptionRegistry) : Does conn [] r r :=
  fun _ _ => ⟨0, rfl⟩

theorem does_cons (conn : ConnId) (op : MapOp) (ops : List MapOp) (r r' : SubscriptionRegistry)
    (h : Does conn ((exec r conn op).2 ++ ops) (exec r conn op).1 r') :
    Does conn (op :: ops) r r' := by
  intro pending rest
  obtain ⟨n, hn⟩ := h pending rest
  refine ⟨n + 1, ?_⟩
  rw [List.replicate_succ, run_cons_some]
  refine ⟨_, ?_, hn⟩
  simp [step, List.append_assoc]

theorem does_append (conn : ConnId) (ops ops' : List MapOp) (r r' r'' : SubscriptionRegistry)
    (h : Does conn ops r r') (h' : Does conn ops' r' r'') : Does conn (ops ++ ops') r r'' := by
  intro pending rest
  obtain ⟨n, hn⟩ := h pending (ops' ++ rest)
  obtain ⟨m, hm⟩ := h' pending rest
  refine ⟨n + m, ?_⟩
  rw [List.replicate_add, run_append_some]
  exact ⟨_, by rw [List.append_assoc]; exact hn, hm⟩

theorem does_retain (conn : ConnId) (subId : SubId) (b : Bucket) (r : SubscriptionRegistry) :
    Does conn [.retain b subId] r (r.unindex (conn, subId) b) := by
  apply does_cons
  unfold SubscriptionRegistry.unindex exec
  dsimp only
  split_ifs with hempty
  · exact does_cons _ _ _ _ _ (does_nil conn _)
  · exact does_nil conn _

theorem does_retains (conn : ConnId) (subId : SubId) (bs : List Bucket)
    (r : SubscriptionRegistry) :
    Does conn (bs.map (.retain · subId)) r (bs.foldl (fun r b => r.unindex (conn, subId) b) r) := by
  induction bs generalizing r with
  | nil => exact does_nil conn r
  | cons b bs ih => exact does_append conn [_] _ _ _ _ (does_retain conn subId b r) (ih _)

theorem does_takeSub (conn : ConnId) (subId : SubId) (r : SubscriptionRegistry) :
    Does conn [.takeSub subId] r (removeSubscription r conn subId).1 := by
  apply does_cons
  unfold removeSubscription exec
  rw [List.append_nil]
  cases r.subs.get? conn with
  | none => exact does_nil conn r
  | some connSubs =>
    dsimp only
    cases connSubs.get? subId with
    | none => exact does_nil conn r
    | some e => exact does_retains conn subId (bucketsFor e) _

theorem does_pushes (conn : ConnId) (subId : SubId) (bs : List Bucket)
    (r : SubscriptionRegistry) :
    Does conn (bs.map (.push · subId)) r (bs.foldl (fun r b => r.push b (conn, subId)) r) := by
  induction bs generalizing r with
  | nil => exact does_nil conn r
  | cons b bs ih => exact does_cons _ _ _ _ _ (ih _)

theorem does_takeSubs (conn : ConnId) (ids : List SubId) (r : SubscriptionRegistry) :
    Does conn (ids.map .takeSub) r (removeSubscriptions r conn ids).1 := by
  induction ids generalizing r with
  | nil => exact does_nil conn r
  | cons id ids ih => exact does_append conn [_] _ _ _ _ (does_takeSub conn id r) (ih _)

theorem does_takeAll (conn : ConnId) (l : List (SubId × SubEntry)) (r : SubscriptionRegistry) :
    Does conn (l.flatMap fun (subId, e) => retainOps subId e) r
      (l.foldl (fun r (subId, e) => removeFromIndex r conn subId e) r) := by
  induction l generalizing r with
  | nil => exact does_nil conn r
  | cons x l ih => exact does_append _ _ _ _ _ _ (does_retains conn x.1 _ r) (ih _)

theorem does_takeConn (conn : ConnId) (r : SubscriptionRegistry) :
    Does conn [.takeConn] r (removeConnection r conn).1 := by
  apply does_cons
  unfold removeConnection exec
  rw [List.append_nil]
  cases r.subs.get? conn with
  | none => exact does_nil conn r
  | some connSubs => exact does_takeAll conn connSubs.toList _

theorem does_call (call : Call) (r : SubscriptionRegistry) :
    Does call.conn call.ops r (r.apply call) := by
  cases call with
  | registerScoped communityId connId subId filters channelId =>
    apply does_append connId [_] _ _ _ _ (does_takeSub connId subId r)
    exact does_cons _ _ _ _ _ (does_pushes connId subId _ _)
  | removeSubscription connId subId => exact does_takeSub connId subId r
  | removeConnection connId => exact does_takeConn connId r
  | removeChannelSubscriptionsScoped communityId connId channelId =>
    apply does_cons
    simp only [exec, List.append_nil]
    exact does_takeSubs connId _ r

theorem run_call_alone (s : Shared) (call : Call) (hidle : s.pending call.conn = []) :
    ∃ n, run step s (.start call :: List.replicate n (.tick call.conn)) =
      some { s with registry := s.registry.apply call } := by
  obtain ⟨n, hn⟩ := does_call call s.registry s.pending []
  refine ⟨n, run_cons_some.mpr ⟨_, by rw [step, if_pos hidle], ?_⟩⟩
  rw [List.append_nil] at hn
  rw [hn, ← hidle, Function.update_eq_self]

def started : Action → Option Call
  | .start call => some call
  | .tick _ => none

/-- Calls that do not interleave take the registry where its own functions take it. -/
theorem calls_in_turn (calls : List Call) (r : SubscriptionRegistry) :
    ∃ as, run step ⟨r, fun _ => []⟩ as = some ⟨calls.foldl .apply r, fun _ => []⟩ ∧
      as.filterMap started = calls := by
  induction calls generalizing r with
  | nil => exact ⟨[], rfl, rfl⟩
  | cons call calls ih =>
    obtain ⟨n, hn⟩ := run_call_alone ⟨r, fun _ => []⟩ call rfl
    obtain ⟨as, has, hstarted⟩ := ih (r.apply call)
    refine ⟨.start call :: List.replicate n (.tick call.conn) ++ as, run_append_some.mpr ⟨_, hn, has⟩, ?_⟩
    have hticks : (List.replicate n (Action.tick call.conn)).filterMap started = [] := by
      simp [started]
    rw [List.filterMap_append, List.filterMap_cons, hticks, hstarted]
    rfl

/-! ## What holds along every run that drops only empty keys -/

def keyToDrop : List MapOp → Option Bucket
  | .dropKey b :: _ => some b
  | _ => none

def DropsOnlyEmpty (s : Shared) : Action → Prop
  | .start _ => True
  | .tick conn => ∀ b ∈ keyToDrop (s.pending conn), (s.registry.bucket b).getD [] = []

instance (s : Shared) : (a : Action) → Decidable (DropsOnlyEmpty s a)
  | .start _ => isTrue trivial
  | .tick conn => Option.decidableForallMem (keyToDrop (s.pending conn))

def MapOp.stage : MapOp → Nat
  | .insertSub .. => 1
  | .push .. => 2
  | _ => 0

/-- Each entry is filed or about to be, and what is about to be taken out of the index has no
entry any more. -/
structure Inv (s : Shared) : Prop where
  filed : ∀ conn sub e, s.registry.entry conn sub = some e → ∀ b ∈ bucketsFor e,
    FiledUnder s.registry (conn, sub) b ∨ .push b sub ∈ s.pending conn
  gone : ∀ conn b sub, .retain b sub ∈ s.pending conn → s.registry.entry conn sub = none
  follow : ∀ conn sub e, .insertSub sub e ∈ s.pending conn → ∀ b ∈ bucketsFor e,
    .push b sub ∈ s.pending conn
  staged : ∀ conn, (s.pending conn).Pairwise fun a b => a.stage ≤ b.stage

theorem inv_new : Inv Shared.new where
  filed conn sub e he := by cases he
  gone conn b sub h := by cases h
  follow conn sub e h := by cases h
  staged conn := List.Pairwise.nil

/-! ### One operation -/

theorem subs_takeSub (r : SubscriptionRegistry) (conn : ConnId) (subId : SubId) :
    (exec r conn (.takeSub subId)).1.subs = (removeSubscription r conn subId).1.subs := by
  unfold exec removeSubscription
  cases r.subs.get? conn with
  | none => rfl
  | some connSubs =>
    dsimp only
    cases connSubs.get? subId with
    | none => rfl
    | some e => exact (subs_removeFromIndex ..).symm

theorem entry_takeSub (r : SubscriptionRegistry) (conn conn' : ConnId) (subId sub : SubId) :
    (exec r conn (.takeSub subId)).1.entry conn' sub =
      if conn' = conn ∧ sub = subId then none else r.entry conn' sub := by
  rw [entry_of_subs_eq (subs_takeSub r conn subId), entry_removeSubscription]

theorem entry_takeConn (r : SubscriptionRegistry) (conn conn' : ConnId) (sub : SubId) :
    (exec r conn .takeConn).1.entry conn' sub =
      if conn' = conn then none else r.entry conn' sub := by
  unfold exec
  cases hconn : r.subs.get? conn with
  | none =>
    split_ifs with h
    · subst h; simp [SubscriptionRegistry.entry, hconn]
    · rfl
  | some connSubs =>
    simp only [SubscriptionRegistry.entry, Table.get?_remove]
    split_ifs <;> rfl

theorem entry_insertSub (r : SubscriptionRegistry) (conn conn' : ConnId) (subId sub : SubId)
    (e : SubEntry) :
    (exec r conn (.insertSub subId e)).1.entry conn' sub =
      if conn' = conn ∧ sub = subId then some e else r.entry conn' sub := by
  simp only [exec, SubscriptionRegistry.entry, Table.get?_set]
  by_cases hc : conn' = conn
  · subst hc
    cases r.subs.get? conn' <;> by_cases hs : sub = subId <;> simp [hs]
  · simp [hc]

theorem entry_exec (r : SubscriptionRegistry) (conn conn' : ConnId) (op : MapOp) (sub : SubId)
    (e : SubEntry) (h : (exec r conn op).1.entry conn' sub = some e) :
    r.entry conn' sub = some e ∨ (conn' = conn ∧ op = .insertSub sub e) := by
  cases op with
  | takeSub subId =>
    rw [entry_takeSub] at h
    split_ifs at h
    exact Or.inl h
  | takeConn =>
    rw [entry_takeConn] at h
    split_ifs at h
    exact Or.inl h
  | insertSub subId e' =>
    rw [entry_insertSub] at h
    split_ifs at h with hsame
    · obtain ⟨rfl, rfl⟩ := hsame
      cases h
      exact Or.inr ⟨rfl, rfl⟩
    · exact Or.inl h
  | listChannel c ch => exact Or.inl h
  | push b s => exact Or.inl (entry_of_subs_eq (subs_push ..) conn' sub ▸ h)
  | retain b s => exact Or.inl (entry_of_subs_eq (subs_alterBucket ..) conn' sub ▸ h)
  | dropKey b => exact Or.inl (entry_of_subs_eq (subs_alterBucket ..) conn' sub ▸ h)

theorem filedUnder_exec (r : SubscriptionRegistry) (conn conn' : ConnId) (op : MapOp)
    (sub : SubId) (b : Bucket) (hdrop : ∀ k, op = .dropKey k → (r.bucket k).getD [] = [])
    (hretain : conn' = conn → op ≠ .retain b sub) (h : FiledUnder r (conn', sub) b) :
    FiledUnder (exec r conn op).1 (conn', sub) b := by
  cases op with
  | takeSub subId =>
    simp only [exec]
    split
    · exact h
    · split
      · exact h
      · exact (filedUnder_subs ..).mpr h
  | takeConn =>
    simp only [exec]
    split
    · exact h
    · exact (filedUnder_subs ..).mpr h
  | insertSub subId e => exact (filedUnder_subs ..).mpr h
  | listChannel c ch => exact h
  | push k s => exact (filedUnder_push ..).mpr (Or.inl h)
  | retain k s =>
    refine (filedUnder_retain ..).mpr ⟨h, ?_⟩
    rintro rfl heq
    obtain ⟨rfl, rfl⟩ := Prod.mk.inj heq
    exact hretain rfl rfl
  | dropKey k => exact (filedUnder_dropKey_of_empty _ _ _ _ (hdrop k rfl)).mpr h

theorem mem_retainOps (subId : SubId) (e : SubEntry) (x : MapOp) (h : x ∈ retainOps subId e) :
    ∃ b, x = .retain b subId := by
  obtain ⟨b, -, rfl⟩ := List.mem_map.mp h
  exact ⟨b, rfl⟩

theorem mem_exec_more (r : SubscriptionRegistry) (conn : ConnId) (op x : MapOp)
    (h : x ∈ (exec r conn op).2) :
    x.stage = 0 ∧ ∀ b sub, x = .retain b sub → (exec r conn op).1.entry conn sub = none := by
  cases op with
  | takeSub subId =>
    have hretain : ∃ b, x = .retain b subId := by
      simp only [exec] at h
      split at h
      · cases h
      · split at h
        · cases h
        · exact mem_retainOps _ _ _ h
    obtain ⟨b, rfl⟩ := hretain
    refine ⟨rfl, ?_⟩
    intro b' sub heq
    cases heq
    rw [entry_takeSub, if_pos ⟨rfl, rfl⟩]
  | takeConn =>
    have hretain : ∃ b sub, x = .retain b sub := by
      simp only [exec] at h
      split at h
      · cases h
      · obtain ⟨y, -, hy⟩ := List.mem_flatMap.mp h
        obtain ⟨b, hb⟩ := mem_retainOps _ _ _ hy
        exact ⟨b, _, hb⟩
    obtain ⟨b, sub, rfl⟩ := hretain
    exact ⟨rfl, fun _ _ _ => by rw [entry_takeConn, if_pos rfl]⟩
  | listChannel c ch =>
    obtain ⟨sub, -, rfl⟩ := List.mem_map.mp h
    exact ⟨rfl, fun _ _ heq => by cases heq⟩
  | retain b s =>
    simp only [exec] at h
    split_ifs at h
    · cases List.mem_singleton.mp h
      exact ⟨rfl, fun _ _ heq => by cases heq⟩
    · cases h
  | insertSub => cases h
  | push => cases h
  | dropKey => cases h

/-! ### One step and whole runs -/

theorem inv_start (s s' : Shared) (call : Call) (h : Inv s) (hstep : step s (.start call) = some s') :
    Inv s' := by
  rw [step] at hstep
  split_ifs at hstep with hidle
  cases hstep
  refine ⟨?_, ?_, ?_, ?_⟩
  · intro conn sub e he b hb
    by_cases hc : conn = call.conn
    · subst hc
      have hfiled := h.filed _ sub e he b hb
      rw [hidle] at hfiled
      exact Or.inl (hfiled.resolve_right List.not_mem_nil)
    · simpa [hc] using h.filed conn sub e he b hb
  · intro conn b sub hmem
    by_cases hc : conn = call.conn
    · subst hc
      cases call <;> simp [Call.ops] at hmem
    · exact h.gone conn b sub (by simpa [hc] using hmem)
  · intro conn sub e hmem b hb
    by_cases hc : conn = call.conn
    · subst hc
      simp only [Function.update_self] at hmem ⊢
      cases call with
      | registerScoped communityId connId subId filters channelId =>
        have hinsert : sub = subId ∧ e = ⟨filters, communityId, channelId⟩ := by
          simpa [Call.ops] using hmem
        obtain ⟨rfl, rfl⟩ := hinsert
        simpa [Call.ops] using hb
      | removeSubscription => simp [Call.ops] at hmem
      | removeConnection => simp [Call.ops] at hmem
      | removeChannelSubscriptionsScoped => simp [Call.ops] at hmem
    · simp only [Function.update_of_ne hc] at hmem ⊢
      exact h.follow conn sub e hmem b hb
  · intro conn
    by_cases hc : conn = call.conn
    · subst hc
      cases call with
      | registerScoped =>
        simp only [Function.update_self, Call.ops, List.pairwise_cons, List.pairwise_map]
        refine ⟨fun _ _ => Nat.zero_le _, ?_, List.pairwise_of_forall_mem_list fun _ _ _ _ => le_rfl⟩
        simp [MapOp.stage]
      | removeSubscription => simp [Call.ops]
      | removeConnection => simp [Call.ops]
      | removeChannelSubscriptionsScoped => simp [Call.ops]
    · simpa [hc] using h.staged conn

theorem inv_tick (s s' : Shared) (conn : ConnId) (h : Inv s) (hcond : DropsOnlyEmpty s (.tick conn))
    (hstep : step s (.tick conn) = some s') : Inv s' := by
  rw [step] at hstep
  cases hpend : s.pending conn with
  | nil => simp [hpend] at hstep
  | cons op rest =>
    simp only [hpend, Option.some.injEq] at hstep
    subst hstep
    have hstaged := h.staged conn
    rw [hpend, List.pairwise_cons] at hstaged
    have hdrop : ∀ k, op = .dropKey k → (s.registry.bucket k).getD [] = [] := by
      rintro k rfl
      simpa [DropsOnlyEmpty, keyToDrop, hpend] using hcond
    have hmore := mem_exec_more s.registry conn op
    refine ⟨?_, ?_, ?_, ?_⟩
    · intro conn' sub e he b hb
      dsimp only at he ⊢
      rcases entry_exec _ _ _ _ _ _ he with hold | ⟨rfl, rfl⟩
      · -- The entry was there before the step, so no `retain` of it is queued.
        have hretain : conn' = conn → op ≠ .retain b sub := by
          rintro rfl rfl
          have hgone := h.gone conn' b sub (by simp [hpend])
          rw [hold] at hgone
          cases hgone
        rcases h.filed conn' sub e hold b hb with hfiled | hpush
        · exact Or.inl (filedUnder_exec _ _ _ _ _ _ hdrop hretain hfiled)
        · by_cases hc : conn' = conn
          · subst hc
            rw [hpend, List.mem_cons] at hpush
            rcases hpush with rfl | hrest
            · exact Or.inl ((filedUnder_push ..).mpr (Or.inr ⟨rfl, rfl⟩))
            · exact Or.inr (by simp [hrest])
          · exact Or.inr (by simpa [hc] using hpush)
      · have hpush := h.follow conn' sub e (by simp [hpend]) b hb
        rw [hpend, List.mem_cons] at hpush
        exact Or.inr (by simpa using Or.inr (hpush.resolve_left (by simp)))
    · intro conn' b sub hmem
      dsimp only at hmem ⊢
      cases hentry : (exec s.registry conn op).1.entry conn' sub with
      | none => rfl
      | some e =>
        exfalso
        rcases entry_exec _ _ _ _ _ _ hentry with hold | ⟨rfl, rfl⟩
        · by_cases hc : conn' = conn
          · subst hc
            rw [Function.update_self, List.mem_append] at hmem
            rcases hmem with hnew | hrest
            · rw [(hmore _ hnew).2 b sub rfl] at hentry
              cases hentry
            · rw [h.gone conn' b sub (by simp [hpend, hrest])] at hold
              cases hold
          · rw [Function.update_of_ne hc] at hmem
            rw [h.gone conn' b sub hmem] at hold
            cases hold
        · -- An insert comes after every removal of its call.
          rw [Function.update_self] at hmem
          have hstage := hstaged.1 _ (by simpa [exec] using hmem)
          simp [MapOp.stage] at hstage
    · intro conn' sub e hmem b hb
      dsimp only at hmem ⊢
      by_cases hc : conn' = conn
      · subst hc
        rw [Function.update_self, List.mem_append] at hmem ⊢
        have hrest : .insertSub sub e ∈ rest := by
          refine hmem.resolve_left fun hnew => ?_
          have hzero := (hmore _ hnew).1
          simp [MapOp.stage] at hzero
        have hpush := h.follow conn' sub e (by simp [hpend, hrest]) b hb
        rw [hpend, List.mem_cons] at hpush
        refine Or.inr (hpush.resolve_left ?_)
        rintro rfl
        -- A push comes after every insert of its call.
        have hstage := hstaged.1 _ hrest
        simp [MapOp.stage] at hstage
      · rw [Function.update_of_ne hc] at hmem ⊢
        exact h.follow conn' sub e hmem b hb
    · intro conn'
      dsimp only
      by_cases hc : conn' = conn
      · subst hc
        rw [Function.update_self, List.pairwise_append]
        refine ⟨List.pairwise_of_forall_mem_list ?_, hstaged.2, ?_⟩
        · intro a ha b _
          rw [(hmore a ha).1]
          exact Nat.zero_le _
        · intro a ha b _
          rw [(hmore a ha).1]
          exact Nat.zero_le _
      · rw [Function.update_of_ne hc]
        exact h.staged conn'

theorem inv_run (as : List Action) (s : Shared) (hmeets : Meets step DropsOnlyEmpty .new as)
    (hrun : run step .new as = some s) : Inv s := by
  refine run_invariant_of_meets Inv ?_ inv_new hmeets hrun
  intro s a s' hinv hcond hstep
  cases a with
  | start call => exact inv_start s s' call hinv hstep
  | tick conn => exact inv_tick s s' conn hinv hcond hstep

/-- While keys are dropped only when empty, each subscription of a connection with no call
under way is filed under all of its buckets, and fan-out delivers to it. -/
theorem settled_subscription_is_delivered (as : List Action) (s : Shared)
    (hmeets : Meets step DropsOnlyEmpty .new as) (hrun : run step .new as = some s)
    (conn : ConnId) (hidle : s.pending conn = []) (sub : SubId) (e : SubEntry)
    (he : s.registry.entry conn sub = some e) :
    (∀ b ∈ bucketsFor e, FiledUnder s.registry (conn, sub) b) ∧
      ∀ ev : StoredEvent, e.channelId = ev.channelId → filtersMatch e.filters ev = true →
        (conn, sub) ∈ fanOutScoped s.registry e.communityId ev := by
  have hfiled : ∀ b ∈ bucketsFor e, FiledUnder s.registry (conn, sub) b := by
    intro b hb
    have hor := (inv_run as s hmeets hrun).filed conn sub e he b hb
    rw [hidle] at hor
    exact hor.resolve_right List.not_mem_nil
  exact ⟨hfiled, fun ev hch hmatch => mem_fanOut_of_filed _ ev conn sub e he hfiled hch hmatch⟩

/-! ### Two connections on one bucket -/

def wildcardFilter : Filter := ⟨none, none, none, none, none, []⟩

/-- Connection 1 has a subscription to a channel. Connection 2 is about to file one under the
same key. -/
def twoOnOneKey : List Action :=
  [.start (.registerScoped 7 1 "a" [wildcardFilter] (some 9)), .tick 1, .tick 1, .tick 1,
    .start (.registerScoped 7 2 "b" [wildcardFilter] (some 9)), .tick 2, .tick 2]

def removeThenPush : List Action :=
  twoOnOneKey ++ [Action.start (.removeSubscription 1 "a"), .tick 1, .tick 1, .tick 1, .tick 2]

def pushBetweenRetainAndDrop : List Action :=
  twoOnOneKey ++ [Action.start (.removeSubscription 1 "a"), .tick 1, .tick 1, .tick 2, .tick 1]

def channelMessage : StoredEvent := ⟨⟨"00", "11", 0, 9, []⟩, some 9⟩

theorem settled_subscription_is_delivered_removeThenPush :
    ∃ s, run step .new removeThenPush = some s ∧
      (2, "b") ∈ fanOutScoped s.registry 7 channelMessage := by
  obtain ⟨s, hrun⟩ := Option.isSome_iff_exists.mp
    (show (run step .new removeThenPush).isSome by decide)
  have hstate : ((run step .new removeThenPush).map fun s => (s.pending 2, s.registry.entry 2 "b")) =
      some ([], some ⟨[wildcardFilter], 7, some 9⟩) := by decide
  rw [hrun] at hstate
  simp only [Option.map_some, Option.some.injEq, Prod.mk.injEq] at hstate
  have hdelivered := settled_subscription_is_delivered removeThenPush s (by decide) hrun 2
    hstate.1 "b" _ hstate.2
  exact ⟨s, hrun, hdelivered.2 channelMessage (by decide) (by decide)⟩

/-- Both calls are over and connection 2 has its entry, yet the key is gone and so is the
delivery. -/
theorem late_drop_loses_subscription :
    ∃ s e, run step .new pushBetweenRetainAndDrop = some s ∧ s.pending 1 = [] ∧ s.pending 2 = [] ∧
      s.registry.entry 2 "b" = some e ∧ .channelWildcard 7 9 ∈ bucketsFor e ∧
      ¬ FiledUnder s.registry (2, "b") (.channelWildcard 7 9) ∧ e.channelId = channelMessage.channelId ∧
      filtersMatch e.filters channelMessage = true ∧
      (2, "b") ∉ fanOutScoped s.registry e.communityId channelMessage := by
  obtain ⟨s, hrun⟩ := Option.isSome_iff_exists.mp
    (show (run step .new pushBetweenRetainAndDrop).isSome by decide)
  have hcalls : ((run step .new pushBetweenRetainAndDrop).map fun s =>
      (s.pending 1, s.pending 2, s.registry.entry 2 "b")) =
      some ([], [], some ⟨[wildcardFilter], 7, some 9⟩) := by decide
  have hlost : ((run step .new pushBetweenRetainAndDrop).map fun s =>
      (s.registry.bucket (.channelWildcard 7 9), fanOutScoped s.registry 7 channelMessage)) =
      some (none, []) := by decide
  rw [hrun] at hcalls hlost
  simp only [Option.map_some, Option.some.injEq, Prod.mk.injEq] at hcalls hlost
  obtain ⟨hone, htwo, hentry⟩ := hcalls
  obtain ⟨hbucket, hfan⟩ := hlost
  refine ⟨s, _, hrun, hone, htwo, hentry, by decide, ?_, by decide, by decide, ?_⟩
  · rw [FiledUnder, hbucket]
    exact List.not_mem_nil
  · rw [hfan]
    exact List.not_mem_nil

end Vingilot.Subscription
