import Mathlib.Tactic.SplitIfs
import Vingilot.Push.Outbox

/-! # Claims of the outbox are fenced

Only enqueueing adds rows, and a row's id and key never change after that. So the unique key is a
matter of what the open transactions hold back, and the rest follows from the guards of each
statement.
-/

namespace Vingilot.Push.Outbox

open Machine

/-! ## Rows keep their keys -/

def SameKeys (o o' : Table Uuid Wake) : Prop :=
  ∀ id, (o'.get? id).map Wake.key = (o.get? id).map Wake.key

def KeepsFinished (o o' : Table Uuid Wake) : Prop :=
  ∀ id w, o.get? id = some w → w.unfinished = false → o'.get? id = some w

variable {t : Tables} {now : Int}

theorem mem_candidates {limit : Nat} {x : Uuid × Wake} (h : x ∈ candidates t now limit) :
    t.outbox.get? x.1 = some x.2 ∧ x.2.sendable t now = true ∧ x.2.due now = true := by
  have hmem := List.mem_mergeSort.mp (List.mem_of_mem_take h)
  rw [List.mem_filter, Bool.and_eq_true] at hmem
  exact ⟨(Table.mem_toList _ _ _).mp hmem.1, hmem.2⟩

theorem Wake.due_unfinished {w : Wake} (h : w.due now = true) : w.unfinished = true := by
  simp only [Wake.due, Bool.and_eq_true, Bool.or_eq_true] at h
  simp only [Wake.unfinished, Bool.or_eq_true]
  rcases h.2 with hpending | hsending
  · exact .inl hpending
  · exact .inr hsending.1

theorem claimDueWakes_get? (t : Tables) (now : Int) (limit : Nat) (claimId : Uuid)
    (leaseUntil : Int) (id : Uuid) :
    (claimDueWakes t now limit claimId leaseUntil).1.outbox.get? id =
      (t.outbox.get? id).map fun w =>
        if (id, w) ∈ candidates t now limit then w.claimed claimId leaseUntil else w := by
  have hrow : ∀ v, (id, v) ∈ (candidates t now limit).map
      (fun x => (x.1, x.2.claimed claimId leaseUntil)) ↔
      ∃ w, (id, w) ∈ candidates t now limit ∧ w.claimed claimId leaseUntil = v := by
    intro v
    simp only [List.mem_map, Prod.mk.injEq]
    constructor
    · rintro ⟨⟨id', w⟩, hmem, rfl, rfl⟩; exact ⟨w, hmem, rfl⟩
    · rintro ⟨w, hmem, rfl⟩; exact ⟨(id, w), hmem, rfl, rfl⟩
  simp only [claimDueWakes]
  cases hget : t.outbox.get? id with
  | none =>
    rw [Table.get?_setAll_of_notMem, hget]
    · rfl
    · intro v hv
      obtain ⟨w, hmem, -⟩ := (hrow v).mp hv
      have hsome := (mem_candidates hmem).1
      rw [hget] at hsome
      cases hsome
  | some w =>
    rw [Option.map_some]
    split_ifs with hmem
    · refine Table.get?_setAll_of_unique _ _ _ _ ((hrow _).mpr ⟨w, hmem, rfl⟩) ?_
      intro v hv
      obtain ⟨w', hmem', rfl⟩ := (hrow v).mp hv
      have hsome := (mem_candidates hmem').1
      rw [hget] at hsome
      cases hsome
      rfl
    · rw [Table.get?_setAll_of_notMem, hget]
      intro v hv
      obtain ⟨w', hmem', -⟩ := (hrow v).mp hv
      have hsome := (mem_candidates hmem').1
      rw [hget] at hsome
      cases hsome
      exact hmem hmem'

theorem claim_sameKeys (t : Tables) (now : Int) (limit : Nat) (claimId : Uuid) (leaseUntil : Int) :
    SameKeys t.outbox (claimDueWakes t now limit claimId leaseUntil).1.outbox := by
  intro id
  rw [claimDueWakes_get?, Option.map_map]
  congr 1
  funext w
  simp only [Function.comp_apply]
  split_ifs
  · rfl
  · rfl

theorem claim_keepsFinished (t : Tables) (now : Int) (limit : Nat) (claimId : Uuid)
    (leaseUntil : Int) :
    KeepsFinished t.outbox (claimDueWakes t now limit claimId leaseUntil).1.outbox := by
  intro id w hget hdone
  rw [claimDueWakes_get?, hget, Option.map_some, if_neg]
  intro hmem
  rw [Wake.due_unfinished (mem_candidates hmem).2.2] at hdone
  cases hdone

theorem finishWake_get? (outbox : Table Uuid Wake) (id claimId : Uuid) (how : Finish) (id' : Uuid) :
    ∃ f : Wake → Wake, (∀ w, (f w).key = w.key) ∧
      (finishWake outbox id claimId how).get? id' = (outbox.get? id').map fun w =>
        if id' = id ∧ w.claimId = some claimId ∧ w.state = .sending then f w else w := by
  have hupdate : ∀ f : Wake → Wake, (updateClaimed outbox id claimId f).get? id' =
      (outbox.get? id').map fun w =>
        if id' = id ∧ w.claimId = some claimId ∧ w.state = .sending then
          { f w with claimId := none, leaseUntil := none } else w := by
    intro f
    rw [updateClaimed, Table.get?_alter]
    split_ifs with hid
    · subst hid; simp
    · simp [hid]
  cases how with
  | complete => refine ⟨_, ?_, hupdate _⟩; intro w; rfl
  | retry nextAttemptAt => refine ⟨_, ?_, hupdate _⟩; intro w; rfl
  | fail => refine ⟨_, ?_, hupdate _⟩; intro w; rfl

theorem finish_sameKeys (outbox : Table Uuid Wake) (id claimId : Uuid) (how : Finish) :
    SameKeys outbox (finishWake outbox id claimId how) := by
  intro id'
  obtain ⟨f, hkey, hget⟩ := finishWake_get? outbox id claimId how id'
  rw [hget, Option.map_map]
  congr 1
  funext w
  simp only [Function.comp_apply]
  split_ifs
  · exact hkey w
  · rfl

theorem finish_keepsFinished (outbox : Table Uuid Wake) (id claimId : Uuid) (how : Finish) :
    KeepsFinished outbox (finishWake outbox id claimId how) := by
  intro id' w hget hdone
  obtain ⟨f, -, hget'⟩ := finishWake_get? outbox id claimId how id'
  rw [hget', hget, Option.map_some, if_neg]
  rintro ⟨-, -, hsending⟩
  simp [Wake.unfinished, hsending] at hdone

/-! ## New rows -/

structure Fresh (outbox : Table Uuid Wake) (rows : List (Uuid × Wake)) : Prop where
  distinct : rows.Pairwise fun x y => x.1 ≠ y.1 ∧ x.2.key ≠ y.2.key
  newId : ∀ x ∈ rows, outbox.get? x.1 = none
  newKey : ∀ x ∈ rows, hasKey outbox.toList x.2.key = false

theorem fresh_nil (outbox : Table Uuid Wake) : Fresh outbox [] := by
  refine ⟨List.Pairwise.nil, ?_, ?_⟩
  · intro x hx; cases hx
  · intro x hx; cases hx

variable {rows : List (Uuid × Wake)}

theorem hasKey_iff {key : WakeKey} : hasKey rows key = true ↔ ∃ x ∈ rows, x.2.key = key := by
  simp only [hasKey, List.any_eq_true, beq_iff_eq]

variable {outbox : Table Uuid Wake}

theorem hasKey_toList_iff {key : WakeKey} :
    hasKey outbox.toList key = true ↔ ∃ id w, outbox.get? id = some w ∧ w.key = key := by
  rw [hasKey_iff]
  simp only [Prod.exists, Table.mem_toList]

variable {ids : List Uuid}

theorem insertWakes_fresh {eligible : List (WakeRequest × BitVec 256)} {acc : List (Uuid × Wake)}
    (hacc : Fresh outbox acc) (h : insertWakes outbox now eligible ids acc = some rows) :
    Fresh outbox rows := by
  induction eligible generalizing ids acc with
  | nil => cases h; exact hacc
  | cons y rest ih =>
    obtain ⟨r, endpointHash⟩ := y
    simp only [insertWakes] at h
    split_ifs at h with htaken
    · exact ih hacc h
    · split at h
      · cases h
      · rename_i id ids
        split_ifs at h with hbad
        simp only [Bool.or_eq_true, not_or, Bool.not_eq_true] at htaken hbad
        refine ih ⟨?_, ?_, ?_⟩ h
        · rw [List.pairwise_append]
          refine ⟨hacc.distinct, List.pairwise_singleton _ _, ?_⟩
          intro x hx y hy
          rw [List.mem_singleton] at hy
          subst hy
          refine ⟨?_, ?_⟩
          · rintro rfl
            exact absurd hbad.1.2 (by simp [List.mem_map_of_mem hx])
          · intro hkey
            have hhas := hasKey_iff.mpr ⟨x, hx, hkey⟩
            simp only [newWake, Wake.key] at hhas
            rw [htaken.2] at hhas
            cases hhas
        · intro x hx
          rcases List.mem_append.mp hx with hold | hnew
          · exact hacc.newId x hold
          · rw [List.mem_singleton] at hnew; subst hnew; simpa using hbad.1.1
        · intro x hx
          rcases List.mem_append.mp hx with hold | hnew
          · exact hacc.newKey x hold
          · rw [List.mem_singleton] at hnew; subst hnew; exact htaken.1

theorem insertWakes_origin {eligible : List (WakeRequest × BitVec 256)} {acc : List (Uuid × Wake)}
    (h : insertWakes outbox now eligible ids acc = some rows) : ∀ x ∈ rows,
      x ∈ acc ∨ (x.1 ∈ ids ∧ ∃ y ∈ eligible, x.2 = newWake now y.1 y.2) := by
  induction eligible generalizing ids acc with
  | nil => cases h; exact fun x hx => .inl hx
  | cons y rest ih =>
    obtain ⟨r, endpointHash⟩ := y
    simp only [insertWakes] at h
    split_ifs at h with htaken
    · intro x hx
      rcases ih h x hx with hold | ⟨hid, y, hy, hnew⟩
      · exact .inl hold
      · exact .inr ⟨hid, y, List.mem_cons_of_mem _ hy, hnew⟩
    · split at h
      · cases h
      · rename_i id ids
        split_ifs at h with hbad
        intro x hx
        rcases ih h x hx with hold | ⟨hid, y, hy, hnew⟩
        · rcases List.mem_append.mp hold with hold | hnew
          · exact .inl hold
          · rw [List.mem_singleton] at hnew
            subst hnew
            exact .inr ⟨List.mem_cons_self, (r, endpointHash), List.mem_cons_self, rfl⟩
        · exact .inr ⟨List.mem_cons_of_mem _ hid, y, List.mem_cons_of_mem _ hy, hnew⟩

variable {id : Uuid}

theorem setAll_get?_fresh (h : Fresh outbox rows) {w : Wake} :
    (outbox.setAll rows).get? id = some w ↔ (id, w) ∈ rows ∨ outbox.get? id = some w := by
  rw [Table.get?_setAll_of_distinct _ (h.distinct.imp fun hxy => hxy.1)]
  constructor
  · rintro (hmem | ⟨hget, -⟩)
    · exact .inl hmem
    · exact .inr hget
  · rintro (hmem | hget)
    · exact .inl hmem
    · refine .inr ⟨hget, ?_⟩
      intro v hv
      rw [h.newId _ hv] at hget
      cases hget

/-! ## What a step can do -/

theorem setTables_db (s : World) (c c' : CommunityId) (t : Tables) :
    (s.setTables c t).db c' = if c' = c then t else s.db c' := by
  by_cases h : c' = c
  · subst h; simp [World.setTables]
  · simp [World.setTables, h]

inductive Step (s : World) : World → Prop
  | single {s' : World} (henq : s'.enqueues = s.enqueues)
      (hkeys : ∀ c, SameKeys (s.db c).outbox (s'.db c).outbox)
      (hfinished : ∀ c, KeepsFinished (s.db c).outbox (s'.db c).outbox) : Step s s'
  | begin (c : CommunityId) (requests : List WakeRequest) :
      Step s { s with
        enqueues := s.enqueues.set s.started ⟨c, s.clock, requests, [], .begun⟩
        started := s.started + 1 }
  | lock {tx : Nat} {e : Enqueue} (addrs : List Address) (hopen : s.enqueues.get? tx = some e) :
      Step s { s with
        enqueues := s.enqueues.set tx { e with
          locked := addrs
          stage := .locked (e.requests.map (resolve (s.db e.community).leases e.now)) } }
  | insert {tx : Nat} {e : Enqueue} {ids : List Uuid} {resolved : List (Option (BitVec 256))}
      {rows : List (Uuid × Wake)} (hopen : s.enqueues.get? tx = some e)
      (hfree : s.other tx e.community (fun o => o.rows.any fun x =>
        ids.contains x.1 || (eligibleRequests e.requests resolved).any fun y =>
          (y.2, y.1.eventId) == x.2.key) = false)
      (hrows : insertWakes (s.db e.community).outbox e.now (eligibleRequests e.requests resolved)
        ids [] = some rows) :
      Step s { s with enqueues := s.enqueues.set tx { e with stage := .inserted resolved rows } }
  | find {tx : Nat} {e : Enqueue} {resolved : List (Option (BitVec 256))}
      {rows : List (Uuid × Wake)} (hopen : s.enqueues.get? tx = some e)
      (hstage : e.stage = .inserted resolved rows) :
      Step s { s with
        enqueues := s.enqueues.set tx { e with
          stage := .found resolved rows (duplicateIds (s.db e.community).outbox
            (eligibleRequests e.requests resolved) rows) } }
  | close (tx : Nat) : Step s { s with enqueues := s.enqueues.remove tx }
  | commit {tx : Nat} {e : Enqueue} {resolved : List (Option (BitVec 256))}
      {rows : List (Uuid × Wake)} {found : List (WakeKey × Uuid)}
      (hopen : s.enqueues.get? tx = some e) (hstage : e.stage = .found resolved rows found) :
      Step s (({ s with enqueues := s.enqueues.remove tx }.setTables e.community
        { s.db e.community with outbox := (s.db e.community).outbox.setAll rows }).answer
          (.enqueued e.community e.requests (outcomes rows found (e.requests.zip resolved) [])))

theorem sameKeys_refl (o : Table Uuid Wake) : SameKeys o o := fun _ => rfl

theorem keepsFinished_refl (o : Table Uuid Wake) : KeepsFinished o o := fun _ _ hget _ => hget

variable {s : World} {c : CommunityId}

theorem Step.of_setTables {s₁ : World} (henq : s₁.enqueues = s.enqueues)
    (hdb : s₁.db = (s.setTables c t).db) (hkeys : SameKeys (s.db c).outbox t.outbox)
    (hfinished : KeepsFinished (s.db c).outbox t.outbox) : Step s s₁ := by
  refine .single henq ?_ ?_
  · intro c'
    rw [hdb, setTables_db]
    split_ifs with hc
    · subst hc; exact hkeys
    · exact sameKeys_refl _
  · intro c'
    rw [hdb, setTables_db]
    split_ifs with hc
    · subst hc; exact hfinished
    · exact keepsFinished_refl _

variable {s' : World} {action : Action}

theorem stepSingle_cases (hstep : stepSingle s action = some s') : Step s s' := by
  cases action with
  | advance micros =>
    cases hstep; exact .single rfl (fun _ => sameKeys_refl _) fun _ => keepsFinished_refl _
  | rotate c addr version active path =>
    simp only [stepSingle] at hstep
    split_ifs at hstep with hlocked
    obtain ⟨lease, -, rfl⟩ := Option.map_eq_some_iff.mp hstep
    exact .of_setTables rfl rfl (sameKeys_refl _) (keepsFinished_refl _)
  | disable c addr generation =>
    simp only [stepSingle] at hstep
    split_ifs at hstep with hlocked
    cases hstep
    exact .of_setTables rfl rfl (sameKeys_refl _) (keepsFinished_refl _)
  | storeEvent c id channelId =>
    cases hstep; exact .of_setTables rfl rfl (sameKeys_refl _) (keepsFinished_refl _)
  | deleteEvent c id =>
    cases hstep; exact .of_setTables rfl rfl (sameKeys_refl _) (keepsFinished_refl _)
  | beginEnqueue c requests => cases hstep; exact .begin c requests
  | claim c limit claimId leaseUntil =>
    cases hstep
    exact .of_setTables rfl rfl (claim_sameKeys _ _ _ _ _) (claim_keepsFinished _ _ _ _ _)
  | revalidate c id claimId =>
    cases hstep; exact .single rfl (fun _ => sameKeys_refl _) fun _ => keepsFinished_refl _
  | finish c id claimId how =>
    cases hstep
    exact .of_setTables rfl rfl (finish_sameKeys _ _ _ _) (finish_keepsFinished _ _ _ _)
  | _ => cases hstep

variable {tx : Nat} {e : Enqueue}

theorem stepEnqueue_cases (hopen : s.enqueues.get? tx = some e)
    (hstep : stepEnqueue s tx e action = some s') : Step s s' := by
  cases action with
  | lockLeases tx' =>
    simp only [stepEnqueue] at hstep
    split_ifs at hstep with hbad
    cases hstep
    exact .lock _ hopen
  | insert tx' ids =>
    simp only [stepEnqueue] at hstep
    split at hstep
    · split_ifs at hstep with hwait
      split at hstep
      · cases hstep; exact .close tx
      · rename_i rows hrows
        cases hstep
        exact .insert hopen (by simpa using hwait) hrows
    · cases hstep
  | findDuplicates tx' =>
    simp only [stepEnqueue] at hstep
    split at hstep
    · rename_i resolved rows hstage
      cases hstep
      exact .find hopen hstage
    · cases hstep
  | commit tx' =>
    simp only [stepEnqueue] at hstep
    split at hstep
    · rename_i resolved rows found hstage
      cases hstep
      exact .commit hopen hstage
    · cases hstep
  | abort tx' => cases hstep; exact .close tx
  | _ => cases hstep

theorem step_cases (hstep : step s action = some s') : Step s s' := by
  unfold step at hstep
  split at hstep
  · exact stepSingle_cases hstep
  · obtain ⟨e, hopen, hstep⟩ := Option.bind_eq_some_iff.mp hstep
    exact stepEnqueue_cases hopen hstep

/-! ## The invariant -/

structure Inv (s : World) : Prop where
  unique : ∀ c id id' w w', (s.db c).outbox.get? id = some w → (s.db c).outbox.get? id' = some w' →
    w.key = w'.key → id = id'
  fresh : ∀ tx e, s.enqueues.get? tx = some e → Fresh (s.db e.community).outbox e.rows
  apart : ∀ tx tx' e e', s.enqueues.get? tx = some e → s.enqueues.get? tx' = some e' →
    tx ≠ tx' → e.community = e'.community → ∀ x ∈ e.rows, ∀ y ∈ e'.rows,
      x.1 ≠ y.1 ∧ x.2.key ≠ y.2.key

theorem Fresh.of_sameKeys {o o' : Table Uuid Wake} (h : Fresh o rows) (hsame : SameKeys o o') :
    Fresh o' rows := by
  refine ⟨h.distinct, ?_, ?_⟩
  · intro x hx
    have hkey := hsame x.1
    rw [h.newId x hx, Option.map_none, Option.map_eq_none_iff] at hkey
    exact hkey
  · intro x hx
    by_contra hne
    rw [Bool.not_eq_false, hasKey_toList_iff] at hne
    obtain ⟨id, w, hget, hkey⟩ := hne
    have hsome := hsame id
    rw [hget, Option.map_some] at hsome
    obtain ⟨w', hget', hkey'⟩ := Option.map_eq_some_iff.mp hsome.symm
    have hhas := hasKey_toList_iff.mpr ⟨id, w', hget', hkey'.trans hkey⟩
    rw [h.newKey x hx] at hhas
    cases hhas

theorem unique_of_sameKeys {o o' : Table Uuid Wake} (hsame : SameKeys o o')
    (h : ∀ id id' w w', o.get? id = some w → o.get? id' = some w' → w.key = w'.key → id = id') :
    ∀ id id' w w', o'.get? id = some w → o'.get? id' = some w' → w.key = w'.key → id = id' := by
  intro id id' w w' hget hget' hkey
  have hsome := hsame id
  have hsome' := hsame id'
  rw [hget, Option.map_some] at hsome
  rw [hget', Option.map_some] at hsome'
  obtain ⟨v, hv, hvk⟩ := Option.map_eq_some_iff.mp hsome.symm
  obtain ⟨v', hv', hvk'⟩ := Option.map_eq_some_iff.mp hsome'.symm
  exact h id id' v v' hv hv' (hvk.trans (hkey.trans hvk'.symm))

theorem inv_of_sameKeys (h : Inv s) (henq : s'.enqueues = s.enqueues)
    (hsame : ∀ c, SameKeys (s.db c).outbox (s'.db c).outbox) : Inv s' := by
  refine ⟨?_, ?_, ?_⟩
  · intro c; exact unique_of_sameKeys (hsame c) (h.unique c)
  · intro tx e hopen
    rw [henq] at hopen
    exact (h.fresh tx e hopen).of_sameKeys (hsame _)
  · intro tx tx' e e' hopen hopen'
    rw [henq] at hopen hopen'
    exact h.apart tx tx' e e' hopen hopen'

theorem inv_remove (h : Inv s) (tx : Nat) : Inv { s with enqueues := s.enqueues.remove tx } := by
  refine ⟨h.unique, ?_, ?_⟩
  · intro tx' e hopen
    simp only [Table.get?_remove] at hopen
    split_ifs at hopen with htx
    exact h.fresh tx' e hopen
  · intro tx₁ tx₂ e₁ e₂ hopen₁ hopen₂
    simp only [Table.get?_remove] at hopen₁ hopen₂
    split_ifs at hopen₁ hopen₂ with htx₁ htx₂
    exact h.apart tx₁ tx₂ e₁ e₂ hopen₁ hopen₂

theorem inv_set (h : Inv s) (tx : Nat) (e : Enqueue)
    (hfresh : Fresh (s.db e.community).outbox e.rows)
    (hapart : ∀ tx' e', s.enqueues.get? tx' = some e' → tx' ≠ tx → e'.community = e.community →
      ∀ x ∈ e.rows, ∀ y ∈ e'.rows, x.1 ≠ y.1 ∧ x.2.key ≠ y.2.key) :
    Inv { s with enqueues := s.enqueues.set tx e } := by
  refine ⟨h.unique, ?_, ?_⟩
  · intro tx' e' hopen
    simp only [Table.get?_set] at hopen
    split_ifs at hopen with htx
    · cases hopen; exact hfresh
    · exact h.fresh tx' e' hopen
  · intro tx₁ tx₂ e₁ e₂ hopen₁ hopen₂ hne hc x hx y hy
    simp only [Table.get?_set] at hopen₁ hopen₂
    split_ifs at hopen₁ hopen₂ with htx₁ htx₂ htx₂
    · omega
    · cases hopen₁; exact hapart tx₂ e₂ hopen₂ htx₂ hc.symm x hx y hy
    · cases hopen₂
      obtain ⟨hid, hkey⟩ := hapart tx₁ e₁ hopen₁ htx₁ hc y hy x hx
      exact ⟨hid.symm, hkey.symm⟩
    · exact h.apart tx₁ tx₂ e₁ e₂ hopen₁ hopen₂ hne hc x hx y hy

theorem other_false {tx' : Nat} {p : Enqueue → Bool} (h : s.other tx c p = false)
    (hopen : s.enqueues.get? tx' = some e) (hne : tx' ≠ tx) (hc : e.community = c) :
    p e = false := by
  simp only [World.other, List.any_eq_false, Bool.and_eq_true, bne_iff_ne, ne_eq, beq_iff_eq,
    not_and, Bool.not_eq_true, and_imp] at h
  exact h (tx', e) ((Table.mem_toList _ _ _).mpr hopen) hne hc

theorem inv_insert {resolved : List (Option (BitVec 256))} (h : Inv s)
    (hfree : s.other tx e.community (fun o => o.rows.any fun x =>
      ids.contains x.1 || (eligibleRequests e.requests resolved).any fun y =>
        (y.2, y.1.eventId) == x.2.key) = false)
    (hrows : insertWakes (s.db e.community).outbox e.now (eligibleRequests e.requests resolved) ids
      [] = some rows) :
    Inv { s with enqueues := s.enqueues.set tx { e with stage := .inserted resolved rows } } := by
  refine inv_set h tx _ (insertWakes_fresh (fresh_nil _) hrows) ?_
  intro tx' e' hopen hne hc x hx y hy
  have hnone := other_false hfree hopen hne hc
  simp only [List.any_eq_false, Bool.or_eq_true, not_or, List.contains_iff_mem, Bool.not_eq_true,
    beq_eq_false_iff_ne, ne_eq] at hnone
  obtain ⟨hid, hkey⟩ := hnone y hy
  obtain hacc | ⟨hxid, z, hz, hnew⟩ := insertWakes_origin hrows x hx
  · cases hacc
  · refine ⟨?_, ?_⟩
    · intro heq; exact hid (heq ▸ hxid)
    · intro heq
      refine hkey z hz ?_
      rw [← heq, hnew]
      rfl

theorem inv_commit (h : Inv s) (hopen : s.enqueues.get? tx = some e) :
    Inv ({ s with enqueues := s.enqueues.remove tx }.setTables e.community
      { s.db e.community with outbox := (s.db e.community).outbox.setAll e.rows }) := by
  have hfresh := h.fresh tx e hopen
  refine ⟨?_, ?_, ?_⟩
  · intro c id id' w w' hget hget' hkey
    rw [setTables_db] at hget hget'
    split_ifs at hget hget' with hc
    · simp only [setAll_get?_fresh hfresh] at hget hget'
      rcases hget with hnew | hold <;> rcases hget' with hnew' | hold'
      · have hkeys : (e.rows.map fun x => x.2.key).Nodup :=
          List.pairwise_map.mpr (hfresh.distinct.imp fun hxy => hxy.2)
        exact congrArg Prod.fst (List.inj_on_of_nodup_map hkeys hnew hnew' hkey)
      · have hhas := hasKey_toList_iff.mpr ⟨id', w', hold', hkey.symm⟩
        rw [hfresh.newKey _ hnew] at hhas
        cases hhas
      · have hhas := hasKey_toList_iff.mpr ⟨id, w, hold, hkey⟩
        rw [hfresh.newKey _ hnew'] at hhas
        cases hhas
      · exact h.unique e.community id id' w w' hold hold' hkey
    · exact h.unique c id id' w w' hget hget' hkey
  · intro tx' e' hopen'
    simp only [World.setTables, Table.get?_remove] at hopen'
    split_ifs at hopen' with htx
    have hfresh' := h.fresh tx' e' hopen'
    rw [setTables_db]
    split_ifs with hc
    · -- The other transaction's rows have other ids and other keys.
      refine ⟨hfresh'.distinct, ?_, ?_⟩
      · intro x hx
        by_contra hne
        obtain ⟨w, hw⟩ := Option.ne_none_iff_exists'.mp hne
        rcases (setAll_get?_fresh hfresh).mp hw with hnew | hold
        · exact (h.apart tx' tx e' e hopen' hopen htx hc x hx _ hnew).1 rfl
        · rw [← hc, hfresh'.newId x hx] at hold
          cases hold
      · intro x hx
        by_contra hne
        rw [Bool.not_eq_false, hasKey_toList_iff] at hne
        obtain ⟨id, w, hget, hkey⟩ := hne
        rcases (setAll_get?_fresh hfresh).mp hget with hnew | hold
        · exact (h.apart tx' tx e' e hopen' hopen htx hc x hx _ hnew).2 hkey.symm
        · have hhas := hasKey_toList_iff.mpr ⟨id, w, hold, hkey⟩
          rw [← hc, hfresh'.newKey x hx] at hhas
          cases hhas
    · exact hfresh'
  · intro tx₁ tx₂ e₁ e₂ hopen₁ hopen₂
    simp only [World.setTables, Table.get?_remove] at hopen₁ hopen₂
    split_ifs at hopen₁ hopen₂ with htx₁ htx₂
    exact h.apart tx₁ tx₂ e₁ e₂ hopen₁ hopen₂

theorem inv_begin (h : Inv s) (c : CommunityId) (requests : List WakeRequest) : Inv { s with
      enqueues := s.enqueues.set s.started ⟨c, s.clock, requests, [], .begun⟩
      started := s.started + 1 } := by
  have hset := inv_set h s.started ⟨c, s.clock, requests, [], .begun⟩ (fresh_nil _) (by
    intro tx' e' _ _ _ x hx; cases hx)
  exact ⟨hset.unique, hset.fresh, hset.apart⟩

theorem Step.inv (hstep : Step s s') (h : Inv s) : Inv s' := by
  cases hstep with
  | single henq hkeys hfinished => exact inv_of_sameKeys h henq hkeys
  | begin c requests => exact inv_begin h c requests
  | lock addrs hopen =>
    refine inv_set h _ _ (fresh_nil _) ?_
    intro tx' e' _ _ _ x hx
    cases hx
  | insert hopen hfree hrows => exact inv_insert h hfree hrows
  | @find tx e resolved rows hopen hstage =>
    have hrows : e.rows = rows := by simp [Enqueue.rows, hstage]
    refine inv_set h _ _ (by simpa [Enqueue.rows, hstage] using h.fresh _ e hopen) ?_
    intro tx' e' hopen' hne hc x hx y hy
    refine h.apart tx tx' e e' hopen hopen' (Ne.symm hne) hc.symm x ?_ y hy
    rw [hrows]
    exact hx
  | close tx => exact inv_remove h tx
  | @commit tx e resolved rows found hopen hstage =>
    have hrows : e.rows = rows := by simp [Enqueue.rows, hstage]
    have hinv := inv_commit h hopen
    rw [hrows] at hinv
    exact ⟨hinv.unique, hinv.fresh, hinv.apart⟩

theorem inv_init (clock : Int) : Inv (World.init clock) := by
  refine ⟨?_, ?_, ?_⟩
  · intro c id id' w w' hget; cases hget
  · intro tx e hopen; cases hopen
  · intro tx tx' e e' hopen; cases hopen

theorem run_inv {clock : Int} {actions : List Action}
    (hrun : run step (World.init clock) actions = some s) : Inv s :=
  run_invariant Inv (fun _ _ _ h hstep => (step_cases hstep).inv h) (inv_init clock) hrun

/-! ## Finished rows -/

theorem Step.keepsFinished (hstep : Step s s') (h : Inv s) (c : CommunityId) :
    KeepsFinished (s.db c).outbox (s'.db c).outbox := by
  cases hstep with
  | single henq hkeys hfinished => exact hfinished c
  | @commit tx e resolved rows found hopen hstage =>
    have hfresh := h.fresh _ e hopen
    rw [show e.rows = rows by simp [Enqueue.rows, hstage]] at hfresh
    intro id w hget _
    simp only [World.answer, setTables_db]
    split_ifs with hc
    · subst hc; exact (setAll_get?_fresh hfresh).mpr (.inr hget)
    · exact hget
  | _ => exact keepsFinished_refl _

theorem run_keepsFinished {actions : List Action} (h : Inv s) (hrun : run step s actions = some s')
    (c : CommunityId) : KeepsFinished (s.db c).outbox (s'.db c).outbox := by
  induction actions generalizing s with
  | nil => cases hrun; exact fun _ _ hget _ => hget
  | cons a actions ih =>
    obtain ⟨t, hstep, hrest⟩ := run_cons_some.mp hrun
    intro id w hget hdone
    have hcases := step_cases hstep
    exact ih (hcases.inv h) hrest id w (hcases.keepsFinished h c id w hget hdone) hdone

variable {claimId : Uuid}

theorem claim_returns_unfinished {limit : Nat} {leaseUntil : Int} {x : ClaimedWake}
    (hx : x ∈ (claimDueWakes t now limit claimId leaseUntil).2) :
    ∃ w, t.outbox.get? x.id = some w ∧ w.unfinished = true := by
  simp only [claimDueWakes, List.mem_filterMap, List.mem_map] at hx
  obtain ⟨y, ⟨⟨id, w⟩, hmem, rfl⟩, hx⟩ := hx
  obtain ⟨hget, -, hdue⟩ := mem_candidates hmem
  refine ⟨w, ?_, Wake.due_unfinished hdue⟩
  simp only [toClaimedWake, Option.bind_eq_bind, Option.bind_eq_some_iff, Option.pure_def,
    Option.some.injEq] at hx
  obtain ⟨_, _, _, _, _, _, rfl⟩ := hx
  exact hget

/-! ## The fence -/

/-- What the outbox promises in a state `s`. -/
structure Fenced (s : World) : Prop where
  unique : ∀ c id id' w w', (s.db c).outbox.get? id = some w → (s.db c).outbox.get? id' = some w' →
    w.endpointHash = w'.endpointHash → w.eventId = w'.eventId → id = id'
  /-- Complete, retry and fail change a row only under its current claim. -/
  current : ∀ c id claimId how s', step s (.finish c id claimId how) = some s' → ∀ c' id',
    (s'.db c').outbox.get? id' ≠ (s.db c').outbox.get? id' → c' = c ∧ id' = id ∧
      ∃ w, (s.db c).outbox.get? id = some w ∧ w.claimId = some claimId ∧ w.state = .sending
  /-- A delivered or failed row stays as it is, and no later claim returns it. -/
  final : ∀ c id w, (s.db c).outbox.get? id = some w → (w.state = .delivered ∨ w.state = .failed) →
    ∀ actions s', run step s actions = some s' → (s'.db c).outbox.get? id = some w ∧
      ∀ limit claimId leaseUntil,
        ∀ x ∈ (claimDueWakes (s'.db c) s'.clock limit claimId leaseUntil).2, x.id ≠ id
  /-- Revalidation delivers only under a lease that is good at that moment. -/
  deliver : ∀ c id claimId wake,
    revalidateWakeForSend (s.db c) s.clock id claimId = .deliver wake →
      ∃ w l e, (s.db c).outbox.get? id = some w ∧ w.claimId = some claimId ∧ w.state = .sending ∧
        (s.db c).leases.get? w.addr = some l ∧ l.active = true ∧ l.endpointEnabled = true ∧
        epochSecs s.clock < l.version.expiresAt ∧ l.version.generation = w.leaseGeneration ∧
        l.endpoint = some e ∧ e.endpointHash = w.endpointHash

theorem finish_current {c' : CommunityId} {id' : Uuid} {how : Finish}
    (hstep : step s (.finish c id claimId how) = some s')
    (hne : (s'.db c').outbox.get? id' ≠ (s.db c').outbox.get? id') : c' = c ∧ id' = id ∧
      ∃ w, (s.db c).outbox.get? id = some w ∧ w.claimId = some claimId ∧ w.state = .sending := by
  cases hstep
  simp only [World.answer, setTables_db] at hne
  split_ifs at hne with hc
  · subst hc
    obtain ⟨f, -, hget⟩ := finishWake_get? (s.db c').outbox id claimId how id'
    rw [hget] at hne
    cases hrow : (s.db c').outbox.get? id' with
    | none => rw [hrow] at hne; exact absurd rfl hne
    | some w =>
      rw [hrow, Option.map_some] at hne
      split_ifs at hne with hcur
      · obtain ⟨rfl, hclaim, hsending⟩ := hcur
        exact ⟨rfl, rfl, w, hrow, hclaim, hsending⟩
      · exact absurd rfl hne
  · exact absurd rfl hne

theorem deliver_lease {wake : ClaimedWake}
    (h : revalidateWakeForSend t now id claimId = .deliver wake) :
    ∃ w l e, t.outbox.get? id = some w ∧ w.claimId = some claimId ∧ w.state = .sending ∧
      t.leases.get? w.addr = some l ∧ l.active = true ∧ l.endpointEnabled = true ∧
      epochSecs now < l.version.expiresAt ∧ l.version.generation = w.leaseGeneration ∧
      l.endpoint = some e ∧ e.endpointHash = w.endpointHash := by
  unfold revalidateWakeForSend at h
  split at h
  · cases h
  · rename_i w hget
    split_ifs at h with hcond
    obtain ⟨hclaim, hsending, -, hsend⟩ := hcond
    simp only [Wake.sendable, Bool.and_eq_true, Option.any_eq_true] at hsend
    obtain ⟨-, l, hlease, helig⟩ := hsend
    simp only [Wake.lease, Option.filter_eq_some_iff, Bool.and_eq_true, beq_iff_eq,
      Option.any_eq_true] at hlease
    obtain ⟨hgetl, hgen, e, hend, hhash⟩ := hlease
    simp only [Lease.eligible, Bool.and_eq_true, decide_eq_true_eq] at helig
    exact ⟨w, l, e, hget, hclaim, hsending, hgetl, helig.1.1, helig.1.2, helig.2, hgen, hend, hhash⟩

theorem outbox_stays_fenced (clock : Int) (actions : List Action) (s : World)
    (hrun : run step (World.init clock) actions = some s) : Fenced s := by
  have hinv : Inv s := run_inv hrun
  refine ⟨?_, ?_, ?_, ?_⟩
  · intro c id id' w w' hget hget' hend hevent
    exact hinv.unique c id id' w w' hget hget' (Prod.ext hend hevent)
  · intro c id claimId how s' hstep c' id' hne
    exact finish_current hstep hne
  · intro c id w hget hdone actions' s' hrun'
    have hfinished : w.unfinished = false := by
      rcases hdone with hstate | hstate <;> simp [Wake.unfinished, hstate]
    have hkept := run_keepsFinished hinv hrun' c id w hget hfinished
    refine ⟨hkept, ?_⟩
    rintro limit claimId leaseUntil x hx rfl
    obtain ⟨w', hget', hunfinished⟩ := claim_returns_unfinished hx
    rw [hkept] at hget'
    cases hget'
    rw [hfinished] at hunfinished
    cases hunfinished
  · intro c id claimId wake h
    exact deliver_lease h

def phoneLease (generation createdAt : Int) (id : EventId) : Action :=
  .rotate 0 ⟨1, "phone"⟩ ⟨id, createdAt, generation, 1000⟩
    (some ⟨"buzz-ios-production", 5, "grant", "default"⟩) (.acceptLeaseEvent 16)

def phoneWake (generation : Int) : WakeRequest := ⟨⟨1, "phone"⟩, generation, 77, "default", 500⟩

/-- A worker's claim runs out and a second worker takes the row over and delivers it. What the
first one reports then is too late. -/
def takeover : List Action :=
  [phoneLease 1 0 7, .storeEvent 0 77 none, .beginEnqueue 0 [phoneWake 1], .lockLeases 0,
    .insert 0 [3], .findDuplicates 0, .commit 0,
    .claim 0 10 21 1000000, .advance 2000000, .claim 0 10 22 9000000,
    .revalidate 0 3 21, .revalidate 0 3 22, .finish 0 3 22 .complete, .finish 0 3 21 .fail]

theorem takeover_stays_fenced : ∃ s, run step (World.init 0) takeover = some s ∧
    ((s.db 0).outbox.get? 3).map Wake.state = some .delivered ∧
    s.answers.getLast? = some (.updated 0 3 21 false) ∧ Fenced s := by
  have hend : (run step (World.init 0) takeover).map (fun s =>
      (((s.db 0).outbox.get? 3).map Wake.state, s.answers.getLast?)) =
      some (some .delivered, some (.updated 0 3 21 false)) := by
    decide +kernel
  cases hrun : run step (World.init 0) takeover with
  | none => rw [hrun] at hend; cases hend
  | some s =>
    rw [hrun, Option.map_some, Option.some.injEq, Prod.mk.injEq] at hend
    exact ⟨s, rfl, hend.1, hend.2, outbox_stays_fenced 0 takeover s hrun⟩

end Vingilot.Push.Outbox
