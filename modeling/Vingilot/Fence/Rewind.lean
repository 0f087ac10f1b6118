import Mathlib.Data.List.Induction
import Vingilot.Lib.Machine
import Vingilot.Fence.Ring

/-! # Token rewinds that the fence notices

A restore can set the writer's token back and keep its epoch. `record` finds that
out from the newest entry of the ring. The ring forgets more than it should: `close`
after a failed probe and a failed rotation empty it and leave the epoch in place, and the next
sample is then taken at its word.
-/

namespace Vingilot.Fence

open Machine

/-- What the writer answers to `sample_writer`, with the wall worked out. -/
structure Sample where
  token : Int
  epoch : Uuid
  committedAt : Nat
  wall : Int

/-- What the rotating `UPDATE` returns. -/
structure Rotation where
  token : Int
  epoch : Uuid
  committedAt : Nat

/-- One tick of `run_probe`. The rotation is what the writer would answer if `probe_once` gets
to it, and `none` is a failure. -/
inductive Tick where
  | failed
  | sampled (s : Sample) (rotation : Option Rotation)

def ReplicaFence.recordSample (f : ReplicaFence) (s : Sample) : ReplicaFence × RecordOutcome :=
  f.record s.token s.epoch s.committedAt s.wall

/-- The fence, and what has happened to it: the tokens it recorded, the epochs in which it
answered with a regression, and every epoch the writer has named. -/
structure Probed where
  fence : ReplicaFence
  recorded : List (Int × Uuid)
  regressed : List Uuid
  seen : List Uuid

def Probed.new : Probed := ⟨.new, [], [], []⟩

/-- `probe_once`, and `close` when it fails. `gen_random_uuid` never repeats an epoch. -/
def tick (p : Probed) : Tick → Option Probed
  | .failed => some { p with fence := p.fence.close }
  | .sampled s rotation =>
    match p.fence.recordSample s with
    | (fence, .recorded) =>
      some ⟨fence, (s.token, s.epoch) :: p.recorded, p.regressed, s.epoch :: p.seen⟩
    | (fence, .tokenRegression) =>
      match rotation with
      | none => some ⟨fence.close, p.recorded, s.epoch :: p.regressed, s.epoch :: p.seen⟩
      | some r =>
        if r.epoch ∈ s.epoch :: p.seen then none
        else
          some ⟨(fence.record r.token r.epoch r.committedAt s.wall).1,
            (r.token, r.epoch) :: p.recorded, s.epoch :: p.regressed,
            r.epoch :: s.epoch :: p.seen⟩

def Rewinds (p : Probed) (s : Sample) : Prop :=
  ∃ token, (token, s.epoch) ∈ p.recorded ∧ s.token ≤ token

def ProvesNothing (p : Probed) (epoch : Uuid) : Prop :=
  ∀ token entry, p.fence.resolve token epoch ≠ .proved entry

/-- Each rewind in the run is answered with a regression, and from then on the
fence proves nothing in its epoch. -/
def RewindsNoticed (ticks : List Tick) : Prop :=
  ∀ pre s rotation post p, ticks = pre ++ .sampled s rotation :: post →
    run tick .new pre = some p → Rewinds p s →
    (p.fence.recordSample s).2 = .tokenRegression ∧
      ∀ p' mid rest p'', tick p (.sampled s rotation) = some p' → post = mid ++ rest →
        run tick p' mid = some p'' → ProvesNothing p'' s.epoch

/-- The sample's epoch has had no regression, and when the ring has nothing of that epoch
the sample is above every token recorded in it. -/
def Remembered (p : Probed) : Tick → Prop
  | .failed => True
  | .sampled s _ =>
    s.epoch ∉ p.regressed ∧
      (p.fence.ring = [] ∨ p.fence.epoch ≠ some s.epoch →
        ∀ token, (token, s.epoch) ∈ p.recorded → token < s.token)

/-! ## What one tick can do -/

inductive Ticks (p p' : Probed) : Tick → Prop
  | failed (hp : p' = { p with fence := p.fence.close }) : Ticks p p' .failed
  | fresh (s : Sample) (rotation : Option Rotation) (hepoch : p.fence.epoch ≠ some s.epoch)
      (hp : p' = ⟨⟨some s.epoch, [⟨s.token, s.committedAt, s.wall⟩]⟩,
        (s.token, s.epoch) :: p.recorded, p.regressed, s.epoch :: p.seen⟩) :
      Ticks p p' (.sampled s rotation)
  | appended (s : Sample) (rotation : Option Rotation) (hepoch : p.fence.epoch = some s.epoch)
      (habove : ∀ last, p.fence.ring.getLast? = some last → last.token < s.token)
      (hp : p' = ⟨⟨some s.epoch,
          ReplicaFence.pushBack p.fence.ring ⟨s.token, s.committedAt, s.wall⟩⟩,
        (s.token, s.epoch) :: p.recorded, p.regressed, s.epoch :: p.seen⟩) :
      Ticks p p' (.sampled s rotation)
  | regressed (s : Sample) (last : TokenEntry) (hepoch : p.fence.epoch = some s.epoch)
      (hlast : p.fence.ring.getLast? = some last) (hle : s.token ≤ last.token)
      (hp : p' = ⟨⟨some s.epoch, []⟩, p.recorded, s.epoch :: p.regressed, s.epoch :: p.seen⟩) :
      Ticks p p' (.sampled s none)
  | rotated (s : Sample) (r : Rotation) (last : TokenEntry) (hepoch : p.fence.epoch = some s.epoch)
      (hlast : p.fence.ring.getLast? = some last) (hle : s.token ≤ last.token)
      (hnew : r.epoch ∉ s.epoch :: p.seen)
      (hp : p' = ⟨⟨some r.epoch, [⟨r.token, r.committedAt, s.wall⟩]⟩,
        (r.token, r.epoch) :: p.recorded, s.epoch :: p.regressed, r.epoch :: s.epoch :: p.seen⟩) :
      Ticks p p' (.sampled s (some r))

theorem ticks_of_tick (p : Probed) (a : Tick) (p' : Probed) (h : tick p a = some p') :
    Ticks p p' a := by
  cases a with
  | failed => cases h; exact .failed rfl
  | sampled s rotation =>
    simp only [tick, ReplicaFence.recordSample] at h
    rcases p.fence.record_cases s.token s.epoch s.committedAt s.wall with
      ⟨hepoch, hrec⟩ | ⟨hepoch, ⟨last, hlast, hle⟩, hrec⟩ | ⟨hepoch, habove, hrec⟩
    · simp only [hrec, Option.some.injEq] at h
      exact .fresh s rotation hepoch h.symm
    · simp only [hrec] at h
      cases rotation with
      | none => cases h; exact .regressed s last hepoch hlast hle rfl
      | some r =>
        simp only at h
        split_ifs at h with hnew
        have hne : s.epoch ≠ r.epoch := fun heq => hnew (by simp [heq])
        refine .rotated s r last hepoch hlast hle hnew ?_
        rw [Option.some.injEq] at h
        rw [← h]
        simp [ReplicaFence.record, ReplicaFence.pushBack, hne]
    · simp only [hrec, Option.some.injEq] at h
      exact .appended s rotation hepoch habove h.symm

/-! ## What every run keeps -/

structure Kept (p : Probed) : Prop where
  ring : ∀ epoch, p.fence.epoch = some epoch → ∀ entry ∈ p.fence.ring,
    (entry.token, epoch) ∈ p.recorded
  unset : p.fence.epoch = none → p.fence.ring = []
  recordedSeen : ∀ token epoch, (token, epoch) ∈ p.recorded → epoch ∈ p.seen
  regressedSeen : ∀ epoch ∈ p.regressed, epoch ∈ p.seen

theorem kept_new : Kept .new where
  ring _ _ entry h := by cases h
  unset _ := rfl
  recordedSeen _ _ h := by cases h
  regressedSeen _ h := by cases h

variable {epoch : Uuid}

theorem recordedSeen_cons {recorded : List (Int × Uuid)} {seen seen' : List Uuid} {token : Int}
    (h : ∀ t e, (t, e) ∈ recorded → e ∈ seen) (hsub : seen ⊆ seen') (hepoch : epoch ∈ seen') :
    ∀ t e, (t, e) ∈ (token, epoch) :: recorded → e ∈ seen' := by
  intro t e hmem
  rcases List.mem_cons.mp hmem with heq | hold
  · cases heq
    exact hepoch
  · exact hsub (h t e hold)

theorem regressedSeen_cons {regressed seen seen' : List Uuid} (h : ∀ e ∈ regressed, e ∈ seen)
    (hsub : seen ⊆ seen') (hepoch : epoch ∈ seen') : ∀ e ∈ epoch :: regressed, e ∈ seen' := by
  intro e hmem
  rcases List.mem_cons.mp hmem with rfl | hold
  · exact hepoch
  · exact hsub (h e hold)

theorem kept_tick (p : Probed) (a : Tick) (p' : Probed) (h : Kept p) (htick : tick p a = some p') :
    Kept p' := by
  have hone : ∀ e, p.seen ⊆ e :: p.seen := fun e => List.subset_cons_self ..
  cases ticks_of_tick p a p' htick with
  | failed hp =>
    subst hp
    exact ⟨fun _ _ _ hmem => absurd hmem List.not_mem_nil, fun _ => rfl, h.recordedSeen,
      h.regressedSeen⟩
  | fresh s rotation hepoch hp =>
    subst hp
    refine ⟨?_, nofun, recordedSeen_cons h.recordedSeen (hone _) List.mem_cons_self,
      fun e hmem => hone _ (h.regressedSeen e hmem)⟩
    rintro _ ⟨⟩ entry hmem
    cases List.mem_singleton.mp hmem
    exact List.mem_cons_self
  | appended s rotation hepoch habove hp =>
    subst hp
    refine ⟨?_, nofun, recordedSeen_cons h.recordedSeen (hone _) List.mem_cons_self,
      fun e hmem => hone _ (h.regressedSeen e hmem)⟩
    rintro _ ⟨⟩ entry hmem
    rcases ReplicaFence.mem_pushBack _ _ _ hmem with hold | rfl
    · exact List.mem_cons_of_mem _ (h.ring s.epoch hepoch entry hold)
    · exact List.mem_cons_self
  | regressed s last hepoch hlast hle hp =>
    subst hp
    exact ⟨fun _ _ _ hmem => absurd hmem List.not_mem_nil, fun _ => rfl,
      fun t e hmem => hone _ (h.recordedSeen t e hmem),
      regressedSeen_cons h.regressedSeen (hone _) List.mem_cons_self⟩
  | rotated s r last hepoch hlast hle hnew hp =>
    subst hp
    have htwo : p.seen ⊆ r.epoch :: s.epoch :: p.seen :=
      List.Subset.trans (hone s.epoch) (List.subset_cons_self ..)
    refine ⟨?_, nofun, recordedSeen_cons h.recordedSeen htwo List.mem_cons_self,
      regressedSeen_cons h.regressedSeen htwo (List.mem_cons_of_mem _ List.mem_cons_self)⟩
    rintro _ ⟨⟩ entry hmem
    cases List.mem_singleton.mp hmem
    exact List.mem_cons_self

/-- While the run remembers, the newest entry is the greatest token of its epoch, and an
epoch that regressed has no entry. -/
structure Newest (p : Probed) : Prop where
  greatest : ∀ epoch last, p.fence.epoch = some epoch → p.fence.ring.getLast? = some last →
    ∀ token, (token, epoch) ∈ p.recorded → token ≤ last.token
  quiet : ∀ epoch ∈ p.regressed, p.fence.epoch = some epoch → p.fence.ring = []

theorem newest_new : Newest .new where
  greatest _ _ h := by cases h
  quiet _ h := by cases h

theorem newest_tick (p : Probed) (a : Tick) (p' : Probed) (hk : Kept p) (h : Newest p)
    (hcond : Remembered p a) (htick : tick p a = some p') : Newest p' := by
  cases ticks_of_tick p a p' htick with
  | failed hp =>
    subst hp
    exact ⟨fun _ _ _ hlast => absurd hlast (by simp [ReplicaFence.close]), fun _ _ _ => rfl⟩
  | fresh s rotation hepoch hp =>
    subst hp
    refine ⟨?_, ?_⟩
    · rintro _ _ ⟨⟩ ⟨⟩ token hmem
      rcases List.mem_cons.mp hmem with heq | hold
      · cases heq
        exact Int.le_refl _
      · exact Int.le_of_lt (hcond.2 (Or.inr hepoch) token hold)
    · rintro _ hmem ⟨⟩
      exact absurd hmem hcond.1
  | appended s rotation hepoch habove hp =>
    subst hp
    refine ⟨?_, ?_⟩
    · rintro _ last ⟨⟩ hlast token hmem
      rw [ReplicaFence.getLast?_pushBack] at hlast
      cases hlast
      rcases List.mem_cons.mp hmem with heq | hold
      · cases heq
        exact Int.le_refl _
      · cases hring : p.fence.ring.getLast? with
        | none =>
          rw [List.getLast?_eq_none_iff] at hring
          exact Int.le_of_lt (hcond.2 (Or.inl hring) token hold)
        | some last =>
          have hle := h.greatest s.epoch last hepoch hring token hold
          have hlt := habove last hring
          dsimp only
          omega
    · rintro _ hmem ⟨⟩
      exact absurd hmem hcond.1
  | regressed s last hepoch hlast hle hp =>
    subst hp
    exact ⟨fun _ _ _ hlast => absurd hlast (by simp), fun _ _ _ => rfl⟩
  | rotated s r last hepoch hlast hle hnew hp =>
    subst hp
    refine ⟨?_, ?_⟩
    · rintro _ _ ⟨⟩ ⟨⟩ token hmem
      rcases List.mem_cons.mp hmem with heq | hold
      · cases heq
        exact Int.le_refl _
      · exact absurd (List.mem_cons_of_mem _ (hk.recordedSeen token r.epoch hold)) hnew
    · rintro _ hmem ⟨⟩
      rcases List.mem_cons.mp hmem with heq | hold
      · exact absurd (heq ▸ List.mem_cons_self) hnew
      · exact absurd (List.mem_cons_of_mem _ (hk.regressedSeen r.epoch hold)) hnew

variable {p : Probed}

theorem provesNothing_of_ring_nil (hk : Kept p) (h : p.fence.epoch = some epoch → p.fence.ring = []) :
    ProvesNothing p epoch := by
  intro token entry hproved
  obtain ⟨hmem, -, hepoch⟩ := ReplicaFence.resolve_proved hproved
  have hnil : p.fence.ring = [] := hepoch.elim hk.unset h
  rw [hnil] at hmem
  cases hmem

theorem regressed_tick (p : Probed) (a : Tick) (p' : Probed) (epoch : Uuid)
    (h : epoch ∈ p.regressed) (htick : tick p a = some p') : epoch ∈ p'.regressed := by
  cases ticks_of_tick p a p' htick with
  | failed hp => subst hp; exact h
  | fresh s rotation hepoch hp => subst hp; exact h
  | appended s rotation hepoch habove hp => subst hp; exact h
  | regressed s last hepoch hlast hle hp => subst hp; exact List.mem_cons_of_mem _ h
  | rotated s r last hepoch hlast hle hnew hp => subst hp; exact List.mem_cons_of_mem _ h

/-! ## A rewind is noticed exactly when the run remembers -/

theorem kept_run {p' : Probed} {ticks : List Tick} (h : Kept p) (hrun : run tick p ticks = some p') :
    Kept p' := run_invariant Kept kept_tick h hrun

theorem newest_run {p' : Probed} {ticks : List Tick} (hk : Kept p) (h : Newest p)
    (hmeets : Meets tick Remembered p ticks) (hrun : run tick p ticks = some p') :
    Kept p' ∧ Newest p' := by
  refine run_invariant_of_meets (fun q => Kept q ∧ Newest q) ?_ ⟨hk, h⟩ hmeets hrun
  rintro s a s' ⟨hkept, hnewest⟩ hcond hstep
  exact ⟨kept_tick s a s' hkept hstep, newest_tick s a s' hkept hnewest hcond hstep⟩

theorem noticed_of_meets (ticks : List Tick) (hmeets : Meets tick Remembered .new ticks) :
    RewindsNoticed ticks := by
  rintro pre s rotation post p rfl hpre ⟨old, hold, hle⟩
  obtain ⟨hmeetsPre, hmeetsRest⟩ := meets_append.mp hmeets
  obtain ⟨hcond, hmeetsPost⟩ := hmeetsRest p hpre
  obtain ⟨hkept, hnewest⟩ := newest_run kept_new newest_new hmeetsPre hpre
  -- The ring still knows a token of this epoch, or the sample would be above all of them.
  have hknown : ¬ (p.fence.ring = [] ∨ p.fence.epoch ≠ some s.epoch) := by
    intro hempty
    have hlt := hcond.2 hempty old hold
    omega
  have hbelow : p.fence.epoch = some s.epoch →
      ¬ ∀ last, p.fence.ring.getLast? = some last → last.token < s.token := by
    intro hepoch habove
    obtain ⟨last, hlast⟩ := Option.ne_none_iff_exists'.mp fun hnone =>
      hknown (Or.inl (List.getLast?_eq_none_iff.mp hnone))
    have hgreat := hnewest.greatest s.epoch last hepoch hlast old hold
    have hlt := habove last hlast
    omega
  have hregress : (p.fence.recordSample s).2 = .tokenRegression := by
    unfold ReplicaFence.recordSample
    rcases p.fence.record_cases s.token s.epoch s.committedAt s.wall with
      ⟨hepoch, -⟩ | ⟨-, -, hrec⟩ | ⟨hepoch, habove, -⟩
    · exact absurd (Or.inr hepoch) hknown
    · rw [hrec]
    · exact absurd habove (hbelow hepoch)
  refine ⟨hregress, ?_⟩
  rintro p' mid rest p'' hstep rfl hmid
  have hbooked : s.epoch ∈ p'.regressed := by
    cases ticks_of_tick p _ p' hstep with
    | fresh _ _ hepoch hp => exact absurd (Or.inr hepoch) hknown
    | appended _ _ hepoch habove hp => exact absurd habove (hbelow hepoch)
    | regressed _ last hepoch hlast hle hp => subst hp; exact List.mem_cons_self
    | rotated _ r last hepoch hlast hle hnew hp => subst hp; exact List.mem_cons_self
  have hlater : s.epoch ∈ p''.regressed :=
    run_invariant (s.epoch ∈ ·.regressed) (fun q a q' => regressed_tick q a q' s.epoch) hbooked hmid
  obtain ⟨hkept'', hnewest''⟩ := newest_run (kept_tick _ _ _ hkept hstep)
    (newest_tick _ _ _ hkept hnewest hcond hstep) (meets_append.mp (hmeetsPost p' hstep)).1 hmid
  exact provesNothing_of_ring_nil hkept'' (hnewest''.quiet s.epoch hlater)

theorem exists_rewind_of_regressed (ticks : List Tick) (p : Probed)
    (hrun : run tick .new ticks = some p) (epoch : Uuid) (h : epoch ∈ p.regressed) :
    ∃ pre s rotation mid q q', ticks = pre ++ .sampled s rotation :: mid ∧ s.epoch = epoch ∧
      run tick .new pre = some q ∧ Rewinds q s ∧ tick q (.sampled s rotation) = some q' ∧
      run tick q' mid = some p := by
  induction ticks using List.reverseRecOn generalizing p with
  | nil => cases hrun; cases h
  | append_singleton ticks a ih =>
    obtain ⟨q, hq, hone⟩ := run_append_some.mp hrun
    obtain ⟨_, htick, hp⟩ := run_cons_some.mp hone
    cases hp
    have hkept := kept_run kept_new hq
    -- Either the epoch was on the books already, or this very sample put it there.
    have hcases : epoch ∈ q.regressed ∨
        ∃ s rotation, a = .sampled s rotation ∧ s.epoch = epoch ∧ Rewinds q s := by
      cases ticks_of_tick q a p htick with
      | failed hp => subst hp; exact Or.inl h
      | fresh s rotation hepoch hp => subst hp; exact Or.inl h
      | appended s rotation hepoch habove hp => subst hp; exact Or.inl h
      | regressed s last hepoch hlast hle hp =>
        subst hp
        refine (List.mem_cons.mp h).symm.imp_right fun heq => ⟨s, none, rfl, heq.symm, ?_⟩
        exact ⟨last.token, hkept.ring s.epoch hepoch last (List.mem_of_getLast? hlast), hle⟩
      | rotated s r last hepoch hlast hle hnew hp =>
        subst hp
        refine (List.mem_cons.mp h).symm.imp_right fun heq => ⟨s, some r, rfl, heq.symm, ?_⟩
        exact ⟨last.token, hkept.ring s.epoch hepoch last (List.mem_of_getLast? hlast), hle⟩
    rcases hcases with hold | ⟨s, rotation, rfl, hepoch, hrew⟩
    · obtain ⟨pre, s, rotation, mid, q₁, q₂, rfl, hepoch, hpre, hrew, hstep, hmid⟩ := ih q hq hold
      refine ⟨pre, s, rotation, mid ++ [a], q₁, q₂, by simp, hepoch, hpre, hrew, hstep, ?_⟩
      exact run_append_some.mpr ⟨q, hmid, hone⟩
    · exact ⟨ticks, s, rotation, [], q, p, by simp, hepoch, hq, hrew, htick, rfl⟩

theorem record_unknown (p : Probed) (s : Sample) (rotation : Option Rotation)
    (h : p.fence.ring = [] ∨ p.fence.epoch ≠ some s.epoch) :
    (p.fence.recordSample s).2 = .recorded ∧
      ∃ p', tick p (.sampled s rotation) = some p' ∧ ¬ ProvesNothing p' s.epoch := by
  have hproves : ∀ (f : ReplicaFence) recorded regressed seen,
      f.epoch = some s.epoch → f.ring.getLast? = some ⟨s.token, s.committedAt, s.wall⟩ →
      ¬ ProvesNothing ⟨f, recorded, regressed, seen⟩ s.epoch :=
    fun f _ _ _ hepoch hlast hnothing => hnothing s.token _ (f.resolve_newest hepoch hlast)
  simp only [tick, ReplicaFence.recordSample]
  rcases p.fence.record_cases s.token s.epoch s.committedAt s.wall with
    ⟨-, hrec⟩ | ⟨hepoch, ⟨last, hlast, -⟩, -⟩ | ⟨-, -, hrec⟩
  · rw [hrec]
    exact ⟨rfl, _, rfl, hproves _ _ _ _ rfl rfl⟩
  · exfalso
    rcases h with hnil | hne
    · rw [hnil] at hlast
      cases hlast
    · exact hne hepoch
  · rw [hrec]
    exact ⟨rfl, _, rfl, hproves _ _ _ _ rfl (ReplicaFence.getLast?_pushBack ..)⟩

theorem remembered_of_noticed (ticks pre post : List Tick) (a : Tick) (p : Probed)
    (h : RewindsNoticed ticks) (hticks : ticks = pre ++ a :: post)
    (hpre : run tick .new pre = some p) (hnewest : Newest p) : Remembered p a := by
  cases a with
  | failed => trivial
  | sampled s rotation =>
    refine ⟨?_, ?_⟩
    · intro hmem
      -- The epoch had its rewind, so it must prove nothing, yet this sample is recorded.
      obtain ⟨pre', s', rotation', mid, q, q', rfl, hepoch, hq, hrew, hstep, hmid⟩ :=
        exists_rewind_of_regressed pre p hpre s.epoch hmem
      have hunknown : p.fence.ring = [] ∨ p.fence.epoch ≠ some s.epoch := by
        by_cases hcur : p.fence.epoch = some s.epoch
        · exact Or.inl (hnewest.quiet s.epoch hmem hcur)
        · exact Or.inr hcur
      obtain ⟨-, p', hp', hproves⟩ := record_unknown p s rotation hunknown
      have hsplit : ticks = pre' ++ .sampled s' rotation' :: (mid ++ .sampled s rotation :: post) := by
        rw [hticks]; simp
      have hquiet := (h pre' s' rotation' _ q hsplit hq hrew).2 q' (mid ++ [.sampled s rotation]) post
        p' hstep (by simp) (run_append_some.mpr ⟨p, hmid, run_cons_some.mpr ⟨p', hp', rfl⟩⟩)
      rw [hepoch] at hquiet
      exact hproves hquiet
    · intro hunknown token hmem
      by_contra hle
      have hnoticed := (h pre s rotation post p hticks hpre ⟨token, hmem, Int.not_lt.mp hle⟩).1
      rw [(record_unknown p s rotation hunknown).1] at hnoticed
      cases hnoticed

theorem meets_of_noticed (ticks pre post : List Tick) (p : Probed) (h : RewindsNoticed ticks)
    (hticks : ticks = pre ++ post) (hpre : run tick .new pre = some p) (hkept : Kept p)
    (hnewest : Newest p) : Meets tick Remembered p post := by
  induction post generalizing pre p with
  | nil => trivial
  | cons a post ih =>
    have hcond := remembered_of_noticed ticks pre post a p h hticks hpre hnewest
    refine ⟨hcond, ?_⟩
    intro p' hstep
    exact ih (pre ++ [a]) p' (by rw [hticks]; simp)
      (run_append_some.mpr ⟨p, hpre, run_cons_some.mpr ⟨p', hstep, rfl⟩⟩)
      (kept_tick p a p' hkept hstep) (newest_tick p a p' hkept hnewest hcond hstep)

/-- A run notices its rewinds exactly when each of its samples meets `Remembered`. -/
theorem rewinds_noticed_iff_remembered (ticks : List Tick) :
    RewindsNoticed ticks ↔ Meets tick Remembered .new ticks :=
  ⟨fun h => meets_of_noticed ticks [] ticks .new h rfl rfl kept_new newest_new,
    noticed_of_meets ticks⟩

def restoreAfterFailure : List Tick :=
  [.sampled ⟨10, 3, 0, 0⟩ none, .failed, .sampled ⟨5, 3, 1, 100⟩ none]

/-- The rewind is recorded, and a reader with the old timeline's token proves coverage by it. -/
theorem closed_fence_forgets_its_tokens :
    ¬ RewindsNoticed restoreAfterFailure ∧
      (run tick .new restoreAfterFailure).map (fun p => p.fence.resolve 10 3) =
        some (.proved ⟨5, 1, 100⟩) := by
  refine ⟨?_, by decide⟩
  intro h
  have hanswer := (h [.sampled ⟨10, 3, 0, 0⟩ none, .failed] ⟨5, 3, 1, 100⟩ none []
    ⟨⟨some 3, []⟩, [(10, 3)], [], [3]⟩ rfl rfl ⟨10, by simp, by decide⟩).1
  revert hanswer
  decide

end Vingilot.Fence
