import Mathlib.Order.Basic

/-!
# Machines: a partial step function and its runs

A machine is `step : σ → α → Option σ`. An action that is not possible in a
state gives `none`. A run is a list of actions, so an interleaving of several
parties is a list whose actions name the party that moves.
-/

namespace Machine

variable {σ α : Type*} (step : σ → α → Option σ)

/-- Takes the actions in order. `none` when one of them is not possible. -/
def run : σ → List α → Option σ
  | s, [] => some s
  | s, a :: as =>
    match step s a with
    | some s' => run s' as
    | none => none

/-- Every action of the run is taken in a state where it meets `cond`. -/
def Meets (cond : σ → α → Prop) : σ → List α → Prop
  | _, [] => True
  | s, a :: as => cond s a ∧ ∀ s', step s a = some s' → Meets cond s' as

/-- Whether a run meets a decidable condition can be found by taking it. -/
instance decidableMeets (cond : σ → α → Prop) [∀ s a, Decidable (cond s a)] :
    ∀ (s : σ) (as : List α), Decidable (Meets step cond s as)
  | _, [] => isTrue trivial
  | s, a :: as =>
    match h : step s a with
    | none => decidable_of_iff (cond s a) ⟨fun hc => ⟨hc, by simp [h]⟩, And.left⟩
    | some t =>
      have := decidableMeets cond t as
      decidable_of_iff (cond s a ∧ Meets step cond t as)
        ⟨fun hc => ⟨hc.1, by simpa [h] using hc.2⟩, fun hm => ⟨hm.1, hm.2 t h⟩⟩

variable {step}

@[simp]
theorem run_nil (s : σ) : run step s [] = some s := rfl

variable {s s' : σ} {as : List α}

theorem run_cons_some {a : α} :
    run step s (a :: as) = some s' ↔ ∃ t, step s a = some t ∧ run step t as = some s' := by
  rw [run]
  cases h : step s a with
  | none => simp
  | some t => simp

theorem run_append_some {bs : List α} :
    run step s (as ++ bs) = some s' ↔ ∃ t, run step s as = some t ∧ run step t bs = some s' := by
  induction as generalizing s with
  | nil => simp
  | cons a as ih =>
    simp only [List.cons_append, run_cons_some]
    constructor
    · rintro ⟨t, ht, hrun⟩
      obtain ⟨u, hu, hrest⟩ := ih.mp hrun
      exact ⟨u, ⟨t, ht, hu⟩, hrest⟩
    · rintro ⟨u, ⟨t, ht, hu⟩, hrest⟩
      exact ⟨t, ht, ih.mpr ⟨u, hu, hrest⟩⟩

variable {cond : σ → α → Prop}

theorem run_meets_cons {a : α} {t : σ} (hcond : cond s a) (hstep : step s a = some t)
    (h : run step t as = some s' ∧ Meets step cond t as) :
    run step s (a :: as) = some s' ∧ Meets step cond s (a :: as) := by
  refine ⟨run_cons_some.mpr ⟨t, hstep, h.1⟩, hcond, fun t' ht' => ?_⟩
  rw [hstep] at ht'
  cases ht'
  exact h.2

theorem meets_append {bs : List α} : Meets step cond s (as ++ bs) ↔
      Meets step cond s as ∧ ∀ t, run step s as = some t → Meets step cond t bs := by
  induction as generalizing s with
  | nil => simp [Meets]
  | cons a as ih =>
    simp only [List.cons_append, Meets, run_cons_some, ih]
    constructor
    · rintro ⟨hc, hrest⟩
      refine ⟨⟨hc, fun t ht => (hrest t ht).1⟩, ?_⟩
      rintro u ⟨t, ht, hrun⟩
      exact (hrest t ht).2 u hrun
    · rintro ⟨⟨hc, hrest⟩, hafter⟩
      exact ⟨hc, fun t ht => ⟨hrest t ht, fun u hu => hafter u ⟨t, ht, hu⟩⟩⟩

variable {cond' : σ → α → Prop}

theorem meets_of_meets (inv : σ → Prop)
    (hstep : ∀ s a s', inv s → cond s a → step s a = some s' → inv s')
    (hcond : ∀ s a, inv s → cond s a → cond' s a) (hs : inv s) (hmeets : Meets step cond s as) :
    Meets step cond' s as := by
  induction as generalizing s with
  | nil => trivial
  | cons a as ih =>
    exact ⟨hcond s a hs hmeets.1, fun t ht => ih (hstep s a t hs hmeets.1 ht) (hmeets.2 t ht)⟩

theorem meets_imp (h : ∀ s a, cond s a → cond' s a) (hmeets : Meets step cond s as) :
    Meets step cond' s as :=
  meets_of_meets (fun _ => True) (fun _ _ _ _ _ _ => trivial) (fun s a _ => h s a) trivial hmeets

theorem meets_and (h : Meets step cond s as) (h' : Meets step cond' s as) :
    Meets step (fun s a => cond s a ∧ cond' s a) s as := by
  induction as generalizing s with
  | nil => trivial
  | cons a as ih => exact ⟨⟨h.1, h'.1⟩, fun t ht => ih (h.2 t ht) (h'.2 t ht)⟩

theorem run_invariant (inv : σ → Prop) (hstep : ∀ s a s', inv s → step s a = some s' → inv s')
    (hs : inv s) (hrun : run step s as = some s') : inv s' := by
  induction as generalizing s with
  | nil => cases hrun; exact hs
  | cons a as ih =>
    obtain ⟨t, ht, hrest⟩ := run_cons_some.mp hrun
    exact ih (hstep s a t hs ht) hrest

theorem run_invariant_of_meets (inv : σ → Prop)
    (hstep : ∀ s a s', inv s → cond s a → step s a = some s' → inv s') (hs : inv s)
    (hmeets : Meets step cond s as) (hrun : run step s as = some s') : inv s' := by
  induction as generalizing s with
  | nil => cases hrun; exact hs
  | cons a as ih =>
    obtain ⟨t, ht, hrest⟩ := run_cons_some.mp hrun
    exact ih (hstep s a t hs hmeets.1 ht) (hmeets.2 t ht) hrest

theorem meets_of_invariant (inv : σ → Prop) (hstep : ∀ s a s', inv s → step s a = some s' → inv s')
    (hcond : ∀ s a, inv s → cond s a) (as : List α) (hs : inv s) : Meets step cond s as := by
  induction as generalizing s with
  | nil => trivial
  | cons a as ih => exact ⟨hcond s a hs, fun t ht => ih (hstep s a t hs ht)⟩

/-- What the actions of a run hand over, in order. `emit` reads the state an action
is taken in. -/
def gather {β : Type*} (step : σ → α → Option σ) (emit : σ → α → List β) : σ → List α → List β
  | _, [] => []
  | s, a :: as =>
    emit s a ++
      match step s a with
      | some s' => gather step emit s' as
      | none => []

/-- An invariant between the state and all that was handed over so far. -/
theorem run_gather {β : Type*} {emit : σ → α → List β} (inv : σ → List β → Prop)
    (hstep : ∀ s a s' given, inv s given → cond s a → step s a = some s' →
      inv s' (given ++ emit s a)) {given : List β} (hs : inv s given)
    (hmeets : Meets step cond s as) (hrun : run step s as = some s') :
    inv s' (given ++ gather step emit s as) := by
  induction as generalizing s given with
  | nil =>
    cases hrun
    simpa [gather] using hs
  | cons a as ih =>
    obtain ⟨t, ht, hrest⟩ := run_cons_some.mp hrun
    have h := ih (hstep s a t given hs hmeets.1 ht) (hmeets.2 t ht) hrest
    simpa [gather, ht] using h

/-- Two conditions that agree on every step of a run are met by it together. -/
theorem meets_congr (inv : σ → Prop) (hstep : ∀ s a s', inv s → step s a = some s' → inv s')
    (hagree : ∀ s a s', inv s → step s a = some s' → (cond s a ↔ cond' s a)) (hs : inv s)
    (hrun : run step s as = some s') : Meets step cond s as ↔ Meets step cond' s as := by
  induction as generalizing s with
  | nil => rfl
  | cons a as ih =>
    obtain ⟨t, ht, hrest⟩ := run_cons_some.mp hrun
    have htail := ih (hstep s a t hs ht) hrest
    simp only [Meets, ht, Option.some.injEq, forall_eq']
    rw [hagree s a t hs ht, htail]

/-- A property that each step keeps just when it meets `cond`, a run keeps just when it meets it. -/
theorem run_iff_meets (inv : σ → Prop) {good : σ → Prop}
    (hstep : ∀ s a s', inv s → step s a = some s' → inv s' ∧ (good s' ↔ good s ∧ cond s a))
    (hs : inv s) (hrun : run step s as = some s') : good s' ↔ good s ∧ Meets step cond s as := by
  induction as generalizing s with
  | nil =>
    cases hrun
    exact ⟨fun h => ⟨h, trivial⟩, And.left⟩
  | cons a as ih =>
    obtain ⟨t, ht, hrest⟩ := run_cons_some.mp hrun
    obtain ⟨hinv, hgood⟩ := hstep s a t hs ht
    simp only [Meets, ht, Option.some.injEq, forall_eq']
    rw [ih hinv hrest, hgood, and_assoc]

theorem run_related (rel : σ → σ → Prop) (hrefl : ∀ s, rel s s)
    (htrans : ∀ s t u, rel s t → rel t u → rel s u)
    (hstep : ∀ s a s', step s a = some s' → rel s s') (hrun : run step s as = some s') :
    rel s s' := by
  induction as generalizing s with
  | nil => cases hrun; exact hrefl _
  | cons a as ih =>
    obtain ⟨t, ht, hrest⟩ := run_cons_some.mp hrun
    exact htrans s t s' (hstep s a t ht) (ih hrest)

/-- Actions that change nothing another state is compared by may be left out of its run. -/
theorem run_filter (rel : σ → σ → Prop) (keep : α → Bool)
    (hkeep : ∀ s t a s', rel s t → keep a = true → step s a = some s' →
      ∃ t', step t a = some t' ∧ rel s' t')
    (hdrop : ∀ s t a s', rel s t → keep a = false → step s a = some s' → rel s' t) {t : σ}
    (hrel : rel s t) (hrun : run step s as = some s') :
    ∃ t', run step t (as.filter keep) = some t' ∧ rel s' t' := by
  induction as generalizing s t with
  | nil =>
    cases hrun
    exact ⟨t, rfl, hrel⟩
  | cons a as ih =>
    obtain ⟨u, hu, hrest⟩ := run_cons_some.mp hrun
    cases hk : keep a with
    | true =>
      obtain ⟨t', ht', hrel'⟩ := hkeep s t a u hrel hk hu
      obtain ⟨v, hv, hrelv⟩ := ih hrel' hrest
      rw [List.filter_cons_of_pos hk]
      exact ⟨v, run_cons_some.mpr ⟨t', ht', hv⟩, hrelv⟩
    | false =>
      rw [List.filter_cons_of_neg (by rw [hk]; exact Bool.false_ne_true)]
      exact ih (hdrop s t a u hrel hk hu) hrest

end Machine
