import Vingilot.Coordinator.Executor

/-!
# Fenced executors (`executor/src/lib.rs`)

The two fences before the child stop an executor whose lease has been taken. The check before the
capture does not: its denial becomes a line of evidence, and a child that ended with 0 takes the Run
to `Completed`.
-/

namespace Vingilot.Coordinator.Execute

open Machine

/-- The binding of an executor whose child has ended with 0 and whose Run is not completed yet. -/
def Stage.heading : Stage → Option Uuid
  | .capture held exitCode => if exitCode = 0 then some held.bindingId else none
  | .verifying held _ => some held.bindingId
  | .completed held _ => some held.bindingId
  | _ => none

def World.heading (w : World) : List Uuid := w.executors.toList.filterMap fun x => x.2.stage.heading

/-- Nobody acquires the lease of an executor that is heading for `Completed`, and a child ends with 0
only when nobody has acquired the lease since the fence before it. -/
def undisturbed (w : World) (a : Action) : Bool :=
  (w.heading.all fun b => .leased b ∉ leasesOf w a) &&
  match a with
  | .exit i exitCode =>
    exitCode ≠ 0 ||
    match (w.executors.get? i).map Executor.stage with
    | some (.running held) => .leased held.bindingId ∉ w.history.drop held.fencedAt
    | _ => true
  | _ => true

/-! ## The current epoch -/

def Current (db : Db) (held : Held) : Prop :=
  ∃ row, db.worktreeBindings.get? held.bindingId = some row ∧ row.epoch = held.epoch

variable {db : Db} {held : Held}

theorem Current.not_fenced (h : Current db held) : isFenced db held = false := by
  obtain ⟨row, hrow, hepoch⟩ := h
  simp [isFenced, hrow, hepoch]

variable {db' : Db}

theorem Current.of_set {id : Uuid} {row row' : WorktreeBinding} (h : Current db held)
    (hrow : db.worktreeBindings.get? id = some row)
    (hbindings : db'.worktreeBindings = db.worktreeBindings.set id row')
    (hepoch : id = held.bindingId → row'.epoch = row.epoch) : Current db' held := by
  obtain ⟨old, hold, hcurrent⟩ := h
  unfold Current
  rw [hbindings, Table.get?_set]
  by_cases hsame : held.bindingId = id
  · obtain rfl : row = old := Option.some.inj (hrow.symm.trans (hsame ▸ hold))
    exact ⟨row', if_pos hsame, (hepoch hsame.symm).trans hcurrent⟩
  · exact ⟨old, by rw [if_neg hsame]; exact hold, hcurrent⟩

theorem Current.call (h : Current db held) (c : Call)
    (hquiet : .leased held.bindingId ∉ leasedBy db c) : Current (c.apply db) held := by
  cases (c.change db).bindings with
  | same hbindings =>
    unfold Current
    rw [hbindings]
    exact h
  | created id runId new hnew hkey hbindings =>
    obtain ⟨row, hrow, hepoch⟩ := h
    have hne : held.bindingId ≠ id := by
      rintro rfl
      rw [hnew] at hrow
      cases hrow
    refine ⟨row, ?_, hepoch⟩
    rw [hbindings, Table.get?_set, if_neg hne]
    exact hrow
  | acquired id row ttlSecs now hcall hok hrow hbindings =>
    subst hcall
    refine h.of_set hrow hbindings fun hsame => ?_
    obtain ⟨p, hp⟩ := hok
    subst hsame
    simp [leasedBy, hp] at hquiet
  | renewed id row ttlSecs now hcall hrow hbindings => exact h.of_set hrow hbindings fun _ => rfl
  | labelled id row lifecycle hrow hbindings => exact h.of_set hrow hbindings fun _ => rfl

variable {events : List Event}

theorem Current.effect (h : Current db held) (heffect : Effect db db' events)
    (hquiet : .leased held.bindingId ∉ events) : Current db' held := by
  rcases heffect with rfl | ⟨c, rfl, hsub⟩
  · exact h
  · exact h.call c fun hleased => hquiet (hsub hleased)

/-! ## What an executor knows at each stage -/

def FencedSince (db : Db) (history : List Event) (held : Held) : Prop :=
  held.fencedAt ≤ history.length ∧
    (.leased held.bindingId ∉ history.drop held.fencedAt → Current db held)

def Knows (db : Db) (history : List Event) : Stage → Prop
  | .spawn held => FencedSince db history held
  | .running held => FencedSince db history held
  | .capture held exitCode => exitCode = 0 → Current db held
  | .verifying held _ => Current db held
  | .completed held _ => Current db held
  | _ => True

theorem FencedSince.effect {history : List Event} (h : FencedSince db history held)
    (heffect : Effect db db' events) : FencedSince db' (history ++ events) held := by
  obtain ⟨hlen, hcurrent⟩ := h
  refine ⟨by rw [List.length_append]; omega, fun hquiet => ?_⟩
  rw [List.drop_append_of_le_length hlen, List.mem_append, not_or] at hquiet
  exact (hcurrent hquiet.1).effect heffect hquiet.2

theorem Knows.effect {history : List Event} {stage : Stage} (h : Knows db history stage)
    (heffect : Effect db db' events) (hheading : ∀ b ∈ stage.heading, .leased b ∉ events) :
    Knows db' (history ++ events) stage := by
  cases stage with
  | spawn held => exact FencedSince.effect h heffect
  | running held => exact FencedSince.effect h heffect
  | capture held exitCode =>
    intro hzero
    exact (h hzero).effect heffect (hheading _ (by simp [Stage.heading, hzero]))
  | verifying held captureOk => exact Current.effect h heffect (hheading _ rfl)
  | completed held captureOk => exact Current.effect h heffect (hheading _ rfl)
  | _ => trivial

structure Kept (w : World) : Prop where
  knows : ∀ i e, w.executors.get? i = some e → Knows w.db w.history e.stage
  completed : ∀ i r fenced, .completed i r fenced ∈ w.history → fenced = false

variable {w : World} {a : Action} {i : Nat}

theorem not_leased_of_undisturbed (h : undisturbed w a = true) {e : Executor}
    (he : w.executors.get? i = some e) : ∀ b ∈ e.stage.heading, .leased b ∉ leasesOf w a := by
  intro b hb
  unfold undisturbed at h
  rw [Bool.and_eq_true, List.all_eq_true] at h
  have hmem : b ∈ w.heading :=
    List.mem_filterMap.mpr ⟨(i, e), (Table.mem_toList ..).mpr he, hb⟩
  simpa using h.1 b hmem

variable {w' : World}

theorem Goes.leased {runId : Uuid} {s s' : Stage} (h : Goes w w' a i runId s s' events) {b : Uuid}
    (hb : .leased b ∈ events) : .leased b ∈ leasesOf w a := by
  cases h with
  | lease job held ha => cases List.mem_singleton.mp hb; exact ha
  | lostLease job result ha => cases List.mem_singleton.mp hb; exact ha
  | claim => cases List.mem_singleton.mp hb
  | spawn => cases List.mem_singleton.mp hb
  | completed => cases List.mem_singleton.mp hb
  | lostCompleted => cases List.mem_singleton.mp hb
  | _ => cases hb

theorem Moves.knows {e : Executor} {stage : Stage} (hmoves : Moves w w' a i e stage events)
    (hw : Kept w) (hcond : undisturbed w a = true) : Knows w'.db w'.history stage := by
  have hknows := hw.knows i e hmoves.here
  have hheading := not_leased_of_undisturbed hcond hmoves.here
  have hstays : Knows w'.db w'.history e.stage := by
    rw [hmoves.history]
    exact hknows.effect hmoves.effect fun b hb hleased => hheading b hb (hmoves.goes.leased hleased)
  obtain ⟨config, runId, old⟩ := e
  have hgoes := hmoves.goes
  cases hgoes with
  | fenceCommand held row hrow hepoch =>
    have hfenced : FencedSince w.db w.history { held with fencedAt := w.history.length } :=
      ⟨Nat.le_refl _, fun _ => ⟨row, hrow, hepoch⟩⟩
    rw [hmoves.history]
    exact hfenced.effect hmoves.effect
  | spawn held => exact hstays
  | renew held => exact hstays
  | exit held exitCode ha =>
    subst ha
    intro hzero
    unfold undisturbed at hcond
    simp only [hmoves.here, Option.map_some, hzero, Bool.and_eq_true] at hcond
    have hquiet : .leased held.bindingId ∉ w.history.drop held.fencedAt := by simpa using hcond.2
    exact (hknows.2 hquiet).effect hmoves.effect List.not_mem_nil
  | capture held captureOk => exact hstays rfl
  | verifying held captureOk => exact hstays
  | _ => trivial

theorem Goes.completed_current {runId : Uuid} {s s' : Stage} (h : Goes w w' a i runId s s' events)
    (hknows : Knows w.db w.history s) {j : Nat} {r : Uuid} {fenced : Bool}
    (hmem : .completed j r fenced ∈ events) : fenced = false := by
  cases h with
  | completed held captureOk =>
    cases List.mem_singleton.mp hmem
    exact Current.not_fenced hknows
  | lostCompleted held captureOk result =>
    cases List.mem_singleton.mp hmem
    exact Current.not_fenced hknows
  | lease => cases List.mem_singleton.mp hmem
  | lostLease => cases List.mem_singleton.mp hmem
  | claim => cases List.mem_singleton.mp hmem
  | spawn => cases List.mem_singleton.mp hmem
  | _ => cases hmem

theorem Kept.step (h : Kept w) (hcond : undisturbed w a = true) (hstep : step w a = some w') :
    Kept w' := by
  cases step_stepped hstep with
  | call c ha hw =>
    subst ha hw
    constructor
    · intro i e he
      refine (h.knows i e he).effect (.inr ⟨c, rfl, List.Subset.refl _⟩) ?_
      exact not_leased_of_undisturbed hcond he
    · intro i r fenced hmem
      rcases List.mem_append.mp hmem with hmem | hmem
      · exact h.completed i r fenced hmem
      · rcases leasedBy_eq w.db c with hnone | ⟨b, hone⟩
        · rw [hnone] at hmem; cases hmem
        · rw [hone] at hmem; cases List.mem_singleton.mp hmem
  | start config runId hw =>
    subst hw
    refine ⟨fun i e he => ?_, h.completed⟩
    rw [Table.get?_set] at he
    split_ifs at he
    · cases he; trivial
    · exact h.knows i e he
  | moves i e stage events hmoves =>
    constructor
    · intro j e' he'
      rw [hmoves.executors] at he'
      split_ifs at he' with hji
      · cases he'
        exact hmoves.knows h hcond
      · rw [hmoves.history]
        refine (h.knows j e' he').effect hmoves.effect ?_
        intro b hb hleased
        exact not_leased_of_undisturbed hcond he' b hb (hmoves.goes.leased hleased)
    · intro j r fenced hmem
      rw [hmoves.history, List.mem_append] at hmem
      rcases hmem with hmem | hmem
      · exact h.completed j r fenced hmem
      · exact hmoves.goes.completed_current (h.knows i e hmoves.here) hmem

/-- No fenced executor completes its Run, in every run where nobody acquires the lease of an executor
between the fence before its child and its last transition, when that child ends with 0. -/
theorem fenced_never_completes {db : Db} {actions : List Action} {w : World}
    (hrun : run step (.init db) actions = some w)
    (hmeets : Meets step (fun w a => undisturbed w a = true) (.init db) actions) :
    ∀ i runId fenced, .completed i runId fenced ∈ w.history → fenced = false := by
  have hinit : Kept (.init db) := ⟨fun _ _ he => (by cases he), fun _ _ _ hmem => (by cases hmem)⟩
  have hkept : Kept w :=
    run_invariant_of_meets Kept (fun _ _ _ hw hc hstep => hw.step hc hstep) hinit hmeets hrun
  exact hkept.completed

def Stage.denial : Stage → Option (String × OpDenied)
  | .returned (.error (.fenced step (some denied))) => some (step, denied)
  | _ => none

/-- A second Run, and executor 2 up to the fence before its child. -/
def secondRun : List Action :=
  [.call (.create 2 ⟨7, none, "test it", .delegated, none⟩),
    .call (.createBinding 6 2 ⟨"buzz", "local", "task", "abc", none, "key 2"⟩),
    .call (.grant 2 6 .write), .call (.transition 2 .provisioning "provisioning started" 11),
    .call (.transition 2 .ready "provisioning complete" 12), .start ⟨["buzz"], ["agent"]⟩ 2,
    .request 2 13 true, .request 2 13 true, .request 2 13 true, .request 2 13 true,
    .request 2 13 true, .git 2 true]

/-- While the child of the first Run works, another party takes the lease of the second one. -/
def leaseTaken : List Action :=
  seenReady ++ executes 0 10 ++ secondRun ++
    [.renew 0 20, .call (.acquireLease 6 90 20), .request 2 20 true] ++ finishes 0 30

theorem fenced_never_completes_denied : ∃ w : World,
    run step (.init .empty) leaseTaken = some w ∧ .completed 0 1 false ∈ w.history ∧
      (w.executors.get? 2).bind (·.stage.denial) = some ("run command", .staleEpoch 6 2 1) ∧
      ∀ i runId fenced, .completed i runId fenced ∈ w.history → fenced = false := by
  have hdemo : ((run step (.init .empty) leaseTaken).any fun w =>
      decide (.completed 0 1 false ∈ w.history) &&
        (w.executors.get? 2).bind (·.stage.denial) == some ("run command", .staleEpoch 6 2 1)) =
      true := by decide +kernel
  have hmeets : Meets step (fun w a => undisturbed w a = true) (.init .empty) leaseTaken := by
    decide +kernel
  obtain ⟨w, hrun, h⟩ := (Option.any_eq_true _ _).mp hdemo
  simp only [Bool.and_eq_true, decide_eq_true_eq, beq_iff_eq] at h
  exact ⟨w, hrun, h.1, h.2, fenced_never_completes hrun hmeets⟩

/-- Another party takes the lease while the child works, and the executor completes the Run. -/
theorem fenced_executor_completes :
    ¬ ∀ (actions : List Action) (w : World), run step (.init .empty) actions = some w →
      ∀ i runId fenced, .completed i runId fenced ∈ w.history → fenced = false := by
  have hdemo : ((run step (.init .empty) (seenReady ++ executes 0 10 ++
      [.call (.acquireLease 5 90 20)] ++ finishes 0 30)).any fun w =>
        decide (.completed 0 1 true ∈ w.history)) = true := by decide +kernel
  obtain ⟨w, hrun, h⟩ := (Option.any_eq_true _ _).mp hdemo
  intro hall
  cases hall _ w hrun 0 1 true (of_decide_eq_true h)

end Vingilot.Coordinator.Execute
