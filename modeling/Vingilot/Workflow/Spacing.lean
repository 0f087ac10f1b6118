import Vingilot.Workflow.Coverage
import Vingilot.Workflow.Scheduler

/-! # How far apart the runs of an interval workflow are

The prefilter measures from the start of the pass in which the pod last fired or lost the claim,
or after a restart from the start of the last claimed bucket. A run can be much younger than
either, because another pod created it or because it was created late in its bucket.
-/

namespace Vingilot.Workflow

open Machine

def FireKey.workflow (key : FireKey) : CommunityId × Uuid := (key.communityId, key.workflowId)

def Spaced (runs : List Run) : Prop :=
  runs.Pairwise fun r r' => r.fire.key.workflow = r'.fire.key.workflow →
    ∀ (secs : Nat) (anchor : Int), r'.fire.trigger = .interval secs anchor →
      r.createdAt + nanos secs ≤ r'.createdAt

/-! ## What a pod knows of the runs -/

/-- A run that a pod created or found claimed, the start of its pass, and how often the pod has
slept since. -/
structure Known where
  run : Run
  passNow : Int
  sleeps : Nat

/-- What is watched of a pod besides its state. A restart ends it. -/
structure Life where
  asleepSince : Int
  known : List Known

structure Watched where
  world : World
  lives : PodId → Life

def Watched.init (clock : Int) : Watched := ⟨.init clock, fun _ => ⟨clock, []⟩⟩

def Action.actor : Action → Option PodId
  | .advance _ => none
  | .wake pod _ _ => some pod
  | .decide pod _ _ => some pod
  | .claim pod _ => some pod
  | .claimNothing pod => some pod
  | .create pod _ _ => some pod
  | .attach pod _ => some pod
  | .finish pod => some pod
  | .crash pod => some pod

def Life.slept (life : Life) : Life :=
  { life with known := life.known.map fun k => { k with sleeps := k.sleeps + 1 } }

def Life.learn (life : Life) (runs : List Run) (passNow : Int) : Life :=
  { life with known := (runs.map fun r => ⟨r, passNow, 0⟩) ++ life.known }

/-- Runs of interval fires only: no other fire moves the pod's own clock. -/
def Life.after (s : World) (p : Pod) (life : Life) : Action → Life
  | .wake .. => life.slept
  | .claim _ .answered =>
    match p.phase with
    | .claiming pass ⟨key, .interval ..⟩ =>
      if (s.claims.get? key).isSome then
        life.learn (s.runs.filter fun r => r.fire.key = key) pass.now
      else life
    | _ => life
  | .create pod .answered runId =>
    match p.phase with
    | .creating pass ⟨key, .interval secs anchor⟩ =>
      life.learn [⟨runId, ⟨key, .interval secs anchor⟩, pod, s.clock⟩] pass.now
    | _ => life
  | .finish _ =>
    match p.phase with
    | .scanning pass =>
      ⟨s.clock, life.known.filter fun k =>
        pass.workflows.any fun w => (w.communityId, w.id) == k.run.fire.key.workflow⟩
    | _ => life
  | .crash _ => ⟨s.clock, []⟩
  | _ => life

def Watched.livesAfter (w : Watched) (a : Action) : PodId → Life :=
  match a.actor with
  | none => w.lives
  | some pod => Function.update w.lives pod ((w.lives pod).after w.world (w.world.pods pod) a)

def watchedStep (cron : CronParser) (w : Watched) (a : Action) : Option Watched :=
  (step cron w.world a).map fun s => ⟨s, w.livesAfter a⟩

/-! ## The condition -/

/-- The earlier run took no longer from the start of its pass than the new one has, or the
interval is in whole minutes and the pod has not fallen a whole tick behind. -/
def KeptPace (clock now : Int) (secs : Nat) (k : Known) : Prop :=
  k.run.createdAt - k.passNow ≤ clock - now ∨
    60 ∣ secs ∧ now < k.passNow + nanos (60 * (k.sleeps + 1))

/-- Every earlier run of the workflow was created an interval before the bucket of the new one, or
is known to the pod, which has kept pace since. -/
def KnowsRuns (w : Watched) (life : Life) : Phase → Prop
  | .creating pass ⟨key, .interval secs _⟩ =>
    ∀ r ∈ w.world.runs, r.fire.key.workflow = key.workflow →
      r.createdAt + nanos secs ≤ key.scheduledFor ∨
        ∃ k ∈ life.known, k.run = r ∧ KeptPace w.world.clock pass.now secs k
  | _ => True

/-- One clock, the minute of sleep before each pass, and runs created on known ones. -/
def CreatesOnKnownRuns (w : Watched) : Action → Prop
  | .wake pod now _ => now = w.world.clock ∧ (w.lives pod).asleepSince + nanos 60 ≤ now
  | .create pod _ _ => KnowsRuns w (w.lives pod) (w.world.pods pod).phase
  | _ => True

instance (clock now : Int) (secs : Nat) (k : Known) : Decidable (KeptPace clock now secs k) :=
  inferInstanceAs (Decidable (_ ∨ _ ∧ _))

instance (w : Watched) (life : Life) : (phase : Phase) → Decidable (KnowsRuns w life phase)
  | .creating _ ⟨_, .interval ..⟩ => inferInstanceAs (Decidable (∀ r ∈ _, _ → _ ∨ _))
  | .creating _ ⟨_, .cron⟩ => isTrue trivial
  | .sleeping => isTrue trivial
  | .scanning _ => isTrue trivial
  | .claiming .. => isTrue trivial
  | .attaching .. => isTrue trivial

instance (w : Watched) : (a : Action) → Decidable (CreatesOnKnownRuns w a)
  | .wake .. => inferInstanceAs (Decidable (_ ∧ _))
  | .create pod _ _ =>
    inferInstanceAs (Decidable (KnowsRuns w (w.lives pod) (w.world.pods pod).phase))
  | .advance _ => isTrue trivial
  | .decide .. => isTrue trivial
  | .claim .. => isTrue trivial
  | .claimNothing _ => isTrue trivial
  | .attach .. => isTrue trivial
  | .finish _ => isTrue trivial
  | .crash _ => isTrue trivial

/-! ## An interval fire has waited its interval since the anchor -/

theorem nanos_le_of_elapsed {now anchor : Int} {secs : Nat} (h : secs ≤ elapsedSecs now anchor)
    (hle : anchor ≤ now) : nanos secs ≤ now - anchor := by
  unfold elapsedSecs at h
  rw [Int.tdiv_eq_ediv_of_nonneg (by omega)] at h
  unfold nanos
  omega

theorem parseDigits_lt {digits : List Char} {acc n : Nat} (hacc : acc < 2 ^ 64)
    (h : Text.parseDigits acc digits = some n) : n < 2 ^ 64 := by
  induction digits generalizing acc with
  | nil =>
    cases h
    exact hacc
  | cons c digits ih =>
    unfold Text.parseDigits at h
    split at h
    · cases h
    · split_ifs at h with hbound
      exact ih hbound h

theorem parseU64_lt {digits : List Char} {n : Nat} (h : Text.parseU64 digits = some n) :
    n < 2 ^ 64 := by
  unfold Text.parseU64 at h
  split at h
  · cases h
  · cases h
  · exact parseDigits_lt (by decide) h
  · exact parseDigits_lt (by decide) h

theorem scaled_lt {digits : List Char} {duration : String} {unit secs : Nat}
    (h : scaled digits duration unit = .ok secs) : secs < 2 ^ 64 := by
  unfold scaled at h
  split at h
  · cases h
  · split_ifs at h with hbound
    cases h
    exact hbound

theorem parseDurationSecs_lt {dur : String} {secs : Nat} (h : parseDurationSecs dur = .ok secs) :
    secs < 2 ^ 64 := by
  unfold parseDurationSecs at h
  dsimp only at h
  split at h
  · exact scaled_lt h
  · split at h
    · exact scaled_lt h
    · split at h
      · exact scaled_lt h
      · split at h
        · rename_i hparse
          cases h
          exact parseU64_lt hparse
        · cases h

/-- A bucket begins no later than the times in it. -/
theorem intervalFireInstant_le {dur : String} {now t : Int}
    (h : intervalFireInstant dur now = some t) : t ≤ now := by
  unfold intervalFireInstant at h
  split at h
  · rename_i secs hdur
    split_ifs at h with hpos
    unfold fromTimestamp at h
    split_ifs at h
    cases h
    have hlt := parseDurationSecs_lt hdur
    have hne : asI64 secs ≠ 0 := by
      intro hzero
      have hdvd := Int.dvd_of_bmod_eq_zero hzero
      have hle := Int.le_of_dvd (by omega) hdvd
      omega
    have hbucket : bucketStart (asI64 secs) now ≤ timestamp now := Int.ediv_mul_le _ hne
    unfold nanos
    unfold timestamp at hbucket
    omega
  · cases h

/-! ## What is decided of one workflow -/

/-- Entries stay, and a new one is the time of the pass. -/
structure Moves (now : Int) (lastFired lastFired' : LastFired) : Prop where
  keeps : ∀ key t, lastFired.get? key = some t → ∃ t', lastFired'.get? key = some t' ∧ (t' = t ∨ t' = now)
  only : ∀ key t, lastFired'.get? key = some t → lastFired.get? key = some t ∨ t = now

theorem moves_refl (now : Int) (lastFired : LastFired) : Moves now lastFired lastFired :=
  ⟨fun _ t h => ⟨t, h, Or.inl rfl⟩, fun _ _ h => Or.inl h⟩

theorem moves_set (now : Int) (lastFired : LastFired) (key : CommunityId × Uuid) :
    Moves now lastFired (lastFired.set key now) where
  keeps key' t h := by
    rw [Table.get?_set]
    split_ifs
    · exact ⟨now, rfl, Or.inr rfl⟩
    · exact ⟨t, h, Or.inl rfl⟩
  only key' t h := by
    rw [Table.get?_set] at h
    split_ifs at h
    · cases h
      exact Or.inr rfl
    · exact Or.inl h

theorem moves_noteFired (now : Int) (lastFired : LastFired) (fire : Fire) :
    Moves now lastFired (noteFired lastFired fire now) := by
  unfold noteFired
  split
  · exact moves_refl now lastFired
  · exact moves_set now lastFired _

theorem moves_prefilter (lastFired : LastFired) (w : WorkflowRecord) (dur : String)
    (last : Option Int) (now : Int) :
    Moves now lastFired (intervalPrefilterShouldFire lastFired w dur last now).1 := by
  unfold intervalPrefilterShouldFire
  split_ifs
  · exact moves_refl now lastFired
  · exact moves_set now lastFired _
  · exact moves_refl now lastFired

theorem moves_resolveFire (cron : CronParser) (lastFired : LastFired) (claims : Claims)
    (anchorReadable : Bool) (now : Int) (w : WorkflowRecord) :
    Moves now lastFired (resolveFire cron lastFired claims anchorReadable now w).1 := by
  unfold resolveFire
  split
  · exact moves_refl now lastFired
  · split_ifs
    · exact moves_refl now lastFired
    · exact moves_refl now lastFired
    · split
      · split <;> exact moves_refl now lastFired
      · rename_i dur _
        have hmoves := moves_prefilter lastFired w dur
          (resolveAnchor lastFired claims anchorReadable w) now
        dsimp only
        split
        · rename_i hprefilter
          rw [hprefilter] at hmoves
          exact hmoves
        · rename_i hprefilter
          rw [hprefilter] at hmoves
          split <;> exact hmoves
      · exact moves_refl now lastFired

/-- An interval fire is of the workflow's own bucket, and has waited since the entry, if any. -/
theorem resolveFire_interval (cron : CronParser) (lastFired : LastFired) (claims : Claims)
    (anchorReadable : Bool) (now : Int) (w : WorkflowRecord) {fire : Fire} {secs : Nat} {anchor : Int}
    (h : (resolveFire cron lastFired claims anchorReadable now w).2 = some fire)
    (htrigger : fire.trigger = .interval secs anchor) :
    fire.key.workflow = (w.communityId, w.id) ∧ fire.key.scheduledFor ≤ now ∧
      ∀ t, lastFired.get? (w.communityId, w.id) = some t → secs ≤ elapsedSecs now t := by
  unfold resolveFire at h
  split at h
  · cases h
  split_ifs at h
  split at h
  · -- A cron fire carries no interval.
    split at h
    · cases h
      cases htrigger
    · cases h
  · dsimp only at h
    split at h
    · cases h
    rename_i dur _ _ hprefilter
    split at h
    · rename_i hdur hinstant
      cases h
      cases htrigger
      refine ⟨rfl, intervalFireInstant_le hinstant, ?_⟩
      intro t ht
      unfold intervalPrefilterShouldFire at hprefilter
      split_ifs at hprefilter with hfire
      · simpa [intervalShouldFire, hdur, resolveAnchor, ht] using hfire
      · cases hprefilter
      · cases hprefilter
    · cases h
  · cases h

/-! ## What holds of a pod and its life -/

def Phase.pass : Phase → Option Pass
  | .sleeping => none
  | .scanning pass => some pass
  | .claiming pass _ => some pass
  | .creating pass _ => some pass
  | .attaching pass _ _ => some pass

def Phase.firing : Phase → Option (Pass × Fire)
  | .claiming pass fire => some (pass, fire)
  | .creating pass fire => some (pass, fire)
  | _ => none

def Known.workflow (k : Known) : CommunityId × Uuid := k.run.fire.key.workflow

/-- The pod's own clock for the workflow of a known run is not behind the run's pass, or is about
to be set. -/
def Noted (p : Pod) (k : Known) : Prop :=
  (∃ t, p.lastFired.get? k.workflow = some t ∧ k.passNow ≤ t) ∨
    ∃ pass fire runId, p.phase = .attaching pass fire runId ∧ fire.trigger ≠ .cron ∧
      fire.key.workflow = k.workflow ∧ k.passNow ≤ pass.now

def Due (life : Life) (pass : Pass) (fire : Fire) : Prop :=
  ∀ secs anchor, fire.trigger = .interval secs anchor →
    fire.key.scheduledFor ≤ pass.now ∧
      ∀ k ∈ life.known, k.workflow = fire.key.workflow → k.passNow + nanos secs ≤ pass.now

structure PodInv (clock : Int) (p : Pod) (life : Life) : Prop where
  begun : ∀ pass, p.phase.pass = some pass → pass.now ≤ clock
  entries : ∀ key t, p.lastFired.get? key = some t →
    t ≤ clock ∧ ∀ pass, p.phase.pass = some pass → t ≤ pass.now
  slept : ∀ k ∈ life.known, k.run.createdAt + nanos (60 * k.sleeps) ≤ clock
  asleep : p.phase = .sleeping →
    ∀ k ∈ life.known, k.run.createdAt + nanos (60 * k.sleeps) ≤ life.asleepSince
  noted : ∀ k ∈ life.known, Noted p k
  due : ∀ pass fire, p.phase.firing = some (pass, fire) → Due life pass fire

variable {clock : Int} {p : Pod} {life : Life}

theorem podInv_empty (clock asleepSince : Int) : PodInv clock ⟨∅, .sleeping⟩ ⟨asleepSince, []⟩ where
  begun _ h := by cases h
  entries _ _ h := by cases h
  slept := List.forall_mem_nil _
  asleep _ := List.forall_mem_nil _
  noted := List.forall_mem_nil _
  due _ _ h := by cases h

theorem PodInv.later {clock' : Int} (h : PodInv clock p life) (hle : clock ≤ clock') :
    PodInv clock' p life where
  begun pass hpass := (h.begun pass hpass).trans hle
  entries key t ht := ⟨(h.entries key t ht).1.trans hle, (h.entries key t ht).2⟩
  slept k hk := (h.slept k hk).trans hle
  asleep := h.asleep
  noted := h.noted
  due := h.due

theorem Noted.entry {k : Known} (h : Noted p k)
    (hphase : ∀ pass fire runId, p.phase ≠ .attaching pass fire runId) :
    ∃ t, p.lastFired.get? k.workflow = some t ∧ k.passNow ≤ t := by
  rcases h with hentry | ⟨pass, fire, runId, hattach, -⟩
  · exact hentry
  · exact absurd hattach (hphase pass fire runId)

/-- The pod goes on with its pass: from a phase that fires nothing further, or to a fire that is
due. -/
theorem PodInv.goOn {pass pass' : Pass} {lastFired : LastFired} {phase : Phase}
    (h : PodInv clock p life) (hpass : p.phase.pass = some pass)
    (hattach : ∀ pass fire runId, p.phase ≠ .attaching pass fire runId)
    (hpass' : phase.pass = some pass') (hnow : pass'.now = pass.now)
    (hmoves : Moves pass.now p.lastFired lastFired)
    (hdue : ∀ pass fire, phase.firing = some (pass, fire) → Due life pass fire) :
    PodInv clock ⟨lastFired, phase⟩ life where
  begun q hq := by
    cases hpass'.symm.trans hq
    rw [hnow]
    exact h.begun pass hpass
  entries key t ht := by
    have hle : t ≤ pass.now := by
      rcases hmoves.only key t ht with hold | rfl
      · exact (h.entries key t hold).2 pass hpass
      · exact le_refl _
    refine ⟨hle.trans (h.begun pass hpass), ?_⟩
    intro q hq
    cases hpass'.symm.trans hq
    rw [hnow]
    exact hle
  slept := h.slept
  asleep hsleep := by
    rw [show phase = .sleeping from hsleep] at hpass'
    cases hpass'
  noted k hk := by
    obtain ⟨t, ht, hle⟩ := (h.noted k hk).entry hattach
    obtain ⟨t', ht', heq⟩ := hmoves.keeps _ t ht
    refine Or.inl ⟨t', ht', ?_⟩
    rcases heq with rfl | rfl
    · exact hle
    · exact hle.trans ((h.entries _ t ht).2 pass hpass)
  due := hdue

/-- The pod learns of runs of a fire that it notes, and whose pass is its own. -/
theorem PodInv.learn {pass : Pass} {runs : List Run} (h : PodInv clock p life)
    (hpass : p.phase.pass = some pass) (hfiring : p.phase.firing = none)
    (hruns : ∀ r ∈ runs, r.createdAt ≤ clock ∧ Noted p ⟨r, pass.now, 0⟩) :
    PodInv clock p (life.learn runs pass.now) where
  begun := h.begun
  entries := h.entries
  slept k hk := by
    rcases List.mem_append.mp hk with hnew | hold
    · obtain ⟨r, hr, rfl⟩ := List.mem_map.mp hnew
      simpa [nanos] using (hruns r hr).1
    · exact h.slept k hold
  asleep hsleep := by
    rw [hsleep] at hpass
    cases hpass
  noted k hk := by
    rcases List.mem_append.mp hk with hnew | hold
    · obtain ⟨r, hr, rfl⟩ := List.mem_map.mp hnew
      exact (hruns r hr).2
    · exact h.noted k hold
  due q fire hq := by
    rw [hfiring] at hq
    cases hq

/-! ## Steps -/

theorem PodInv.wake {now : Int} {workflows : List WorkflowRecord} (h : PodInv clock p life)
    (hphase : p.phase = .sleeping) (hnow : now = clock) (hslept : life.asleepSince + nanos 60 ≤ now) :
    PodInv clock ⟨p.lastFired, .scanning ⟨now, workflows, workflows⟩⟩ life.slept where
  begun pass hpass := by
    cases hpass
    exact hnow.le
  entries key t ht := by
    refine ⟨(h.entries key t ht).1, ?_⟩
    intro pass hpass
    cases hpass
    exact (h.entries key t ht).1.trans hnow.ge
  slept k hk := by
    obtain ⟨k, hmem, rfl⟩ := List.mem_map.mp hk
    have hasleep := h.asleep hphase k hmem
    simp only [nanos] at hasleep hslept ⊢
    push_cast
    omega
  asleep hsleep := by cases hsleep
  noted k hk := by
    obtain ⟨k, hmem, rfl⟩ := List.mem_map.mp hk
    exact Or.inl ((h.noted k hmem).entry fun _ _ _ heq => by rw [hphase] at heq; cases heq)
  due pass fire hfiring := by cases hfiring

theorem due_of_resolveFire {cron : CronParser} {claims : Claims} {anchorReadable : Bool} {pass : Pass}
    {w : WorkflowRecord} {fire : Fire} {pass' : Pass} (h : PodInv clock p life)
    (hpass : p.phase.pass = some pass)
    (hattach : ∀ pass fire runId, p.phase ≠ .attaching pass fire runId)
    (hfire : (resolveFire cron p.lastFired claims anchorReadable pass.now w).2 = some fire)
    (hnow : pass'.now = pass.now) : Due life pass' fire := by
  intro secs anchor htrigger
  obtain ⟨hworkflow, hbucket, helapsed⟩ :=
    resolveFire_interval cron p.lastFired claims anchorReadable pass.now w hfire htrigger
  rw [hnow]
  refine ⟨hbucket, ?_⟩
  intro k hk hsame
  obtain ⟨t, ht, hle⟩ := (h.noted k hk).entry hattach
  rw [hsame, hworkflow] at ht
  have hwait := nanos_le_of_elapsed (helapsed t ht) ((h.entries _ t ht).2 pass hpass)
  omega

theorem PodInv.attach {pass : Pass} {fire : Fire} {runId : Uuid} (h : PodInv clock p life)
    (hphase : p.phase = .attaching pass fire runId) :
    PodInv clock ⟨noteFired p.lastFired fire pass.now, .scanning pass⟩ life where
  begun q hq := by
    cases hq
    exact h.begun pass (by rw [hphase]; rfl)
  entries key t ht := by
    have hpass : p.phase.pass = some pass := by rw [hphase]; rfl
    have hle : t ≤ pass.now := by
      rcases (moves_noteFired pass.now p.lastFired fire).only key t ht with hold | rfl
      · exact (h.entries key t hold).2 pass hpass
      · exact le_refl _
    refine ⟨hle.trans (h.begun pass hpass), ?_⟩
    intro q hq
    cases hq
    exact hle
  slept := h.slept
  asleep hsleep := by cases hsleep
  noted k hk := by
    refine Or.inl ?_
    rcases h.noted k hk with ⟨t, ht, hle⟩ | ⟨q, f, id, heq, hcron, hworkflow, hle⟩
    · obtain ⟨t', ht', heq⟩ := (moves_noteFired pass.now p.lastFired fire).keeps _ t ht
      refine ⟨t', ht', ?_⟩
      rcases heq with rfl | rfl
      · exact hle
      · exact hle.trans ((h.entries _ t ht).2 pass (by rw [hphase]; rfl))
    · cases hphase.symm.trans heq
      refine ⟨pass.now, ?_, hle⟩
      obtain ⟨key, trigger⟩ := fire
      cases trigger with
      | cron => exact absurd rfl hcron
      | interval secs anchor =>
        rw [← hworkflow]
        exact (Table.get?_set _ _ _ _).trans (if_pos rfl)
  due q f hq := by cases hq

theorem get?_pruneFired {workflows : List WorkflowRecord} {lastFired : LastFired}
    {key : CommunityId × Uuid} :
    (pruneFired lastFired workflows).get? key = lastFired.get? key ∨
      (workflows.any fun w => (w.communityId, w.id) == key) = false ∧
        (pruneFired lastFired workflows).get? key = none := by
  unfold pruneFired
  refine List.foldlRecOn (motive := fun kept : LastFired => kept.get? key = lastFired.get? key ∨
    (workflows.any fun w => (w.communityId, w.id) == key) = false ∧ kept.get? key = none)
    lastFired.toList _ (Or.inl rfl) ?_
  intro kept h row _
  dsimp only
  split_ifs with hlisted
  · exact h
  · rw [Table.get?_remove]
    split_ifs with hkey
    · subst hkey
      exact Or.inr ⟨by simpa using hlisted, rfl⟩
    · exact h

theorem PodInv.finish {pass : Pass} (h : PodInv clock p life) (hphase : p.phase = .scanning pass) :
    PodInv clock ⟨pruneFired p.lastFired pass.workflows, .sleeping⟩
      ⟨clock, life.known.filter fun k =>
        pass.workflows.any fun w => (w.communityId, w.id) == k.workflow⟩ where
  begun q hq := by cases hq
  entries key t ht := by
    refine ⟨?_, fun q hq => by cases hq⟩
    rcases @get?_pruneFired pass.workflows p.lastFired key with heq | ⟨-, hnone⟩
    · rw [heq] at ht
      exact (h.entries key t ht).1
    · rw [hnone] at ht
      cases ht
  slept k hk := h.slept k (List.mem_filter.mp hk).1
  asleep _ k hk := h.slept k (List.mem_filter.mp hk).1
  noted k hk := by
    obtain ⟨hk, hlisted⟩ := List.mem_filter.mp hk
    obtain ⟨t, ht, hle⟩ := (h.noted k hk).entry fun _ _ _ heq => by rw [hphase] at heq; cases heq
    rcases @get?_pruneFired pass.workflows p.lastFired k.workflow with heq | ⟨hgone, -⟩
    · exact Or.inl ⟨t, heq.trans ht, hle⟩
    · rw [hgone] at hlisted
      cases hlisted
  due q f hq := by cases hq

structure WatchedInv (w : Watched) : Prop where
  pods : ∀ pod, PodInv w.world.clock (w.world.pods pod) (w.lives pod)
  created : ∀ r ∈ w.world.runs, r.createdAt ≤ w.world.clock
  spaced : Spaced w.world.runs

theorem watchedInv_init (clock : Int) : WatchedInv (.init clock) where
  pods _ := podInv_empty clock clock
  created := List.forall_mem_nil _
  spaced := List.Pairwise.nil

theorem WatchedInv.setPod {s : World} {lives : PodId → Life} (h : WatchedInv ⟨s, lives⟩) (pod : PodId)
    {claims : Claims} {runs : List Run} (hcreated : ∀ r ∈ runs, r.createdAt ≤ s.clock)
    (hspaced : Spaced runs) (hpod : PodInv s.clock p life) :
    WatchedInv ⟨{ s with claims := claims, runs := runs }.setPod pod p,
      Function.update lives pod life⟩ where
  pods pod' := by
    by_cases heq : pod' = pod
    · subst heq
      simpa [World.setPod] using hpod
    · simpa [World.setPod, heq] using h.pods pod'
  created := hcreated
  spaced := hspaced

theorem spaced_append {w : Watched} {pod : PodId} {runId : Uuid} {pass : Pass} {fire : Fire}
    (h : WatchedInv w) (hphase : (w.world.pods pod).phase = .creating pass fire)
    (hcond : KnowsRuns w (w.lives pod) (w.world.pods pod).phase) :
    Spaced (w.world.runs ++ [⟨runId, fire, pod, w.world.clock⟩]) := by
  refine List.pairwise_append.mpr ⟨h.spaced, List.pairwise_singleton .., ?_⟩
  intro r hr r' hr' hsame secs anchor htrigger
  cases List.mem_singleton.mp hr'
  have hdue := (h.pods pod).due pass fire (by rw [hphase]; rfl) secs anchor htrigger
  have hbegun := (h.pods pod).begun pass (by rw [hphase]; rfl)
  obtain ⟨key, trigger⟩ := fire
  cases htrigger
  rw [hphase] at hcond
  dsimp only at hdue ⊢
  rcases hcond r hr hsame with hbucket | ⟨k, hk, rfl, hslower | ⟨⟨minutes, hminutes⟩, htick⟩⟩
  · omega
  · have hwait := hdue.2 k hk hsame
    omega
  · -- The interval is over before the next tick, so the ticks so far have slept for it.
    have hwait := hdue.2 k hk hsame
    have hslept := (h.pods pod).slept k hk
    simp only [nanos, hminutes] at hwait hslept htick ⊢
    push_cast at hwait ⊢
    omega

theorem WatchedInv.created_append {w : Watched} (h : WatchedInv w) (runId : Uuid) (fire : Fire)
    (pod : PodId) :
    ∀ r ∈ w.world.runs ++ [⟨runId, fire, pod, w.world.clock⟩], r.createdAt ≤ w.world.clock := by
  intro r hr
  rcases List.mem_append.mp hr with hold | hnew
  · exact h.created r hold
  · rw [List.mem_singleton.mp hnew]

theorem PodInv.created {pod : PodId} {pass : Pass} {fire : Fire} {runId : Uuid} {s : World}
    (h : PodInv s.clock p life) (hphase : p.phase = .creating pass fire) :
    PodInv s.clock ⟨p.lastFired, .attaching pass fire runId⟩
      (life.after s p (.create pod .answered runId)) := by
  have hpass : p.phase.pass = some pass := by rw [hphase]; rfl
  have hattaching : PodInv s.clock ⟨p.lastFired, .attaching pass fire runId⟩ life :=
    h.goOn hpass (fun _ _ _ heq => by rw [hphase] at heq; cases heq) rfl rfl
      (moves_refl pass.now p.lastFired) fun _ _ heq => by cases heq
  obtain ⟨key, trigger⟩ := fire
  cases trigger with
  | cron =>
    simp only [Life.after, hphase]
    exact hattaching
  | interval secs anchor =>
    simp only [Life.after, hphase]
    refine hattaching.learn rfl rfl ?_
    intro r hr
    rw [List.mem_singleton.mp hr]
    exact ⟨le_refl _, Or.inr ⟨pass, _, runId, rfl, by simp, rfl, le_refl _⟩⟩

theorem PodInv.lost {pod : PodId} {pass : Pass} {fire : Fire} {s : World}
    (h : PodInv s.clock p life) (hphase : p.phase = .claiming pass fire)
    (hcreated : ∀ r ∈ s.runs, r.createdAt ≤ s.clock) :
    PodInv s.clock ⟨noteFired p.lastFired fire pass.now, .scanning pass⟩
      (life.after s p (.claim pod .answered)) := by
  have hpass : p.phase.pass = some pass := by rw [hphase]; rfl
  have hscanning : PodInv s.clock ⟨noteFired p.lastFired fire pass.now, .scanning pass⟩ life :=
    h.goOn hpass (fun _ _ _ heq => by rw [hphase] at heq; cases heq) rfl rfl
      (moves_noteFired pass.now p.lastFired fire) fun _ _ heq => by cases heq
  obtain ⟨key, trigger⟩ := fire
  cases trigger with
  | cron =>
    simp only [Life.after, hphase]
    exact hscanning
  | interval secs anchor =>
    simp only [Life.after, hphase]
    split_ifs
    · refine hscanning.learn rfl rfl ?_
      intro r hr
      obtain ⟨hr, hkey⟩ := List.mem_filter.mp hr
      refine ⟨hcreated r hr, Or.inl ⟨pass.now, ?_, le_refl _⟩⟩
      rw [Known.workflow, of_decide_eq_true hkey]
      exact (Table.get?_set _ _ _ _).trans (if_pos rfl)
    · exact hscanning

theorem PodInv.won {pod : PodId} {pass : Pass} {fire : Fire} {s : World}
    (h : PodInv s.clock p life) (hphase : p.phase = .claiming pass fire)
    (hwon : (claimScheduledWorkflowFire s.claims pod fire.key).2 = true) :
    PodInv s.clock ⟨p.lastFired, .creating pass fire⟩ (life.after s p (.claim pod .answered)) := by
  have hnone : (s.claims.get? fire.key).isSome = false := by
    unfold claimScheduledWorkflowFire at hwon
    cases hget : s.claims.get? fire.key with
    | none => rfl
    | some row =>
      rw [hget] at hwon
      cases hwon
  have hlife : life.after s p (.claim pod .answered) = life := by
    simp only [Life.after, hphase]
    split
    · rename_i heq
      cases heq
      simp [hnone]
    · rfl
  rw [hlife]
  refine h.goOn (by rw [hphase]; rfl) (fun _ _ _ heq => by rw [hphase] at heq; cases heq) rfl rfl
    (moves_refl pass.now p.lastFired) ?_
  intro pass' fire' heq
  cases heq
  exact h.due pass fire (by rw [hphase]; rfl)

theorem watchedInv_step (cron : CronParser) (w : Watched) (a : Action) (w' : Watched)
    (h : WatchedInv w) (hcond : CreatesOnKnownRuns w a) (hwatched : watchedStep cron w a = some w') :
    WatchedInv w' := by
  obtain ⟨s, lives⟩ := w
  obtain ⟨s', hstep, rfl⟩ := Option.map_eq_some_iff.mp hwatched
  cases a with
  | advance nanos =>
    cases hstep
    have hle : s.clock ≤ s.clock + nanos := by omega
    exact ⟨fun pod => (h.pods pod).later hle, fun r hr => (h.created r hr).trans hle, h.spaced⟩
  | wake pod now workflows =>
    simp only [step] at hstep
    split at hstep
    · rename_i hphase
      cases hstep
      exact h.setPod pod h.created h.spaced ((h.pods pod).wake hphase hcond.1 hcond.2)
    · cases hstep
  | decide pod anchorReadable authorized =>
    simp only [step] at hstep
    split at hstep
    · rename_i now workflows w rest hphase
      have hpass : (s.pods pod).phase.pass = some ⟨now, workflows, w :: rest⟩ := by rw [hphase]; rfl
      have hattach : ∀ pass fire runId, (s.pods pod).phase ≠ .attaching pass fire runId :=
        fun _ _ _ heq => by rw [hphase] at heq; cases heq
      have hmoves :=
        moves_resolveFire cron (s.pods pod).lastFired s.claims anchorReadable now w
      split at hstep
      · rename_i lastFired hresolve
        cases hstep
        rw [hresolve] at hmoves
        exact h.setPod pod h.created h.spaced
          ((h.pods pod).goOn hpass hattach rfl rfl hmoves fun _ _ heq => by cases heq)
      · rename_i lastFired fire hresolve
        rw [hresolve] at hmoves
        split_ifs at hstep
        · cases hstep
          refine h.setPod pod h.created h.spaced
            ((h.pods pod).goOn hpass hattach rfl rfl hmoves ?_)
          intro pass' fire' heq
          cases heq
          exact due_of_resolveFire (h.pods pod) hpass hattach (congrArg Prod.snd hresolve) rfl
        · cases hstep
          exact h.setPod pod h.created h.spaced
            ((h.pods pod).goOn hpass hattach rfl rfl hmoves fun _ _ heq => by cases heq)
    · cases hstep
  | claim pod callEnd =>
    simp only [step] at hstep
    split at hstep
    · rename_i pass fire hphase
      have hpass : (s.pods pod).phase.pass = some pass := by rw [hphase]; rfl
      have hattach : ∀ pass fire runId, (s.pods pod).phase ≠ .attaching pass fire runId :=
        fun _ _ _ heq => by rw [hphase] at heq; cases heq
      have hrefl := moves_refl pass.now (s.pods pod).lastFired
      have hscanning : PodInv s.clock ⟨(s.pods pod).lastFired, .scanning pass⟩ (lives pod) :=
        (h.pods pod).goOn hpass hattach rfl rfl hrefl fun _ _ heq => by cases heq
      cases callEnd with
      | answered =>
        dsimp only at hstep
        split_ifs at hstep with hwon
        · cases hstep
          exact h.setPod pod h.created h.spaced ((h.pods pod).won hphase hwon)
        · cases hstep
          exact h.setPod pod h.created h.spaced ((h.pods pod).lost hphase h.created)
      | failedBefore =>
        cases hstep
        exact h.setPod pod h.created h.spaced hscanning
      | failedAfter =>
        cases hstep
        exact h.setPod pod h.created h.spaced hscanning
    · cases hstep
  | claimNothing pod =>
    simp only [step] at hstep
    split at hstep
    · rename_i pass fire hphase
      cases hstep
      refine h.setPod pod h.created h.spaced ((h.pods pod).goOn (by rw [hphase]; rfl)
        (fun _ _ _ heq => by rw [hphase] at heq; cases heq) rfl rfl
          (moves_noteFired pass.now _ fire) fun _ _ heq => by cases heq)
    · cases hstep
  | create pod callEnd runId =>
    simp only [step] at hstep
    split at hstep
    · rename_i pass fire hphase
      have hspaced := @spaced_append _ pod runId pass fire h hphase hcond
      have hcreated := h.created_append runId fire pod
      have hscanning : PodInv s.clock ⟨(s.pods pod).lastFired, .scanning pass⟩ (lives pod) :=
        (h.pods pod).goOn (by rw [hphase]; rfl)
          (fun _ _ _ heq => by rw [hphase] at heq; cases heq) rfl rfl
          (moves_refl pass.now _) fun _ _ heq => by cases heq
      cases callEnd with
      | answered =>
        cases hstep
        exact h.setPod pod hcreated hspaced ((h.pods pod).created hphase)
      | failedBefore =>
        cases hstep
        exact h.setPod pod h.created h.spaced hscanning
      | failedAfter =>
        cases hstep
        exact h.setPod pod hcreated hspaced hscanning
    · cases hstep
  | attach pod callEnd =>
    simp only [step] at hstep
    split at hstep
    · rename_i pass fire runId hphase
      cases hstep
      exact h.setPod pod h.created h.spaced ((h.pods pod).attach hphase)
    · cases hstep
  | finish pod =>
    simp only [step] at hstep
    split at hstep
    · rename_i now workflows hphase
      cases hstep
      have hfinish := (h.pods pod).finish hphase
      refine h.setPod pod h.created h.spaced ?_
      simp only [Life.after, hphase]
      exact hfinish
    · cases hstep
  | crash pod =>
    cases hstep
    exact h.setPod pod h.created h.spaced (podInv_empty s.clock s.clock)

/-- Watching the pods keeps no run from being taken. -/
theorem watched_run {cron : CronParser} {as : List Action} {s : World} {w : Watched}
    (hrun : run (step cron) w.world as = some s) :
    ∃ w', run (watchedStep cron) w as = some w' ∧ w'.world = s := by
  induction as generalizing w with
  | nil =>
    cases hrun
    exact ⟨w, rfl, rfl⟩
  | cons a as ih =>
    obtain ⟨t, ht, hrest⟩ := run_cons_some.mp hrun
    obtain ⟨w', hrun', hworld⟩ := @ih ⟨t, w.livesAfter a⟩ hrest
    exact ⟨w', run_cons_some.mpr ⟨_, congrArg (Option.map _) ht, hrun'⟩, hworld⟩

def everyOtherMinute : WorkflowRecord := ⟨4, 7, some 9, some ⟨true, .schedule none (some "2m")⟩⟩

def idlePass (pod : PodId) (now : Int) : List Action :=
  [.wake pod now [everyOtherMinute], .decide pod true true, .finish pod]

def firingPass (pod : PodId) (now : Int) (nanos : Nat) (runId : Uuid) : List Action :=
  [.wake pod now [everyOtherMinute], .decide pod true true, .claim pod .answered, .advance nanos,
    .create pod .answered runId, .attach pod .answered, .finish pod]

def losingPass (pod : PodId) (now : Int) : List Action :=
  [.wake pod now [everyOtherMinute], .decide pod true true, .claim pod .answered, .finish pod]

/-- `0` fires first, half a second into its pass, and `1` finds its claim. `1` fires next, a tenth
of a second into its pass. `0` restarts, and fires when a whole bucket has passed. -/
def staysUp : List Action :=
  (Action.advance 60000000000 :: (idlePass 0 3600000000000 ++ idlePass 1 3600000000000)) ++
    (Action.advance 60000000000 :: (idlePass 0 3660000000000 ++ idlePass 1 3660000000000)) ++
    (Action.advance 60000000000 ::
      (firingPass 0 3720000000000 500000000 100 ++ losingPass 1 3720500000000)) ++
    (Action.advance 60000000000 :: (idlePass 0 3780500000000 ++ idlePass 1 3780500000000)) ++
    (Action.advance 60000000000 ::
      (firingPass 1 3840500000000 100000000 101 ++ losingPass 0 3840600000000)) ++
    (Action.crash 0 :: Action.advance 240000000000 :: firingPass 0 4080600000000 200000000 102)

def hourly : WorkflowRecord := ⟨4, 7, some 9, some ⟨true, .schedule none (some "1h")⟩⟩

def firstFire : List Action :=
  [.wake 0 (nanos 3540) [hourly], .decide 0 true true, .finish 0, .advance 3600000000000,
    .wake 0 (nanos 7140) [hourly], .decide 0 true true, .claim 0 .answered,
    .create 0 .answered 100, .attach 0 .answered, .finish 0]

def restarts : List Action :=
  firstFire ++ [Action.crash 0, .advance 60000000000, .wake 0 (nanos 7200) [hourly],
    .decide 0 true true, .claim 0 .answered, .create 0 .answered 101]

end Vingilot.Workflow
