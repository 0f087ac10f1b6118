import Mathlib.Order.Bounds.Basic
import Mathlib.Order.MinMax

/-!
# Frontiers: one grow-only value for each key

A frontier gives every key a value of a linear order. The only operation raises
one key to at least a value, so what a frontier ends as is settled by the set of
the values that were given, never by their order or their number.
-/

namespace Frontier

variable {κ τ : Type*} [DecidableEq κ] [LinearOrder τ]

def raise (f : κ → τ) (given : κ × τ) : κ → τ :=
  Function.update f given.1 (max (f given.1) given.2)

def raiseAll (f : κ → τ) (given : List (κ × τ)) : κ → τ := given.foldl raise f

theorem raise_apply (f : κ → τ) (given : κ × τ) (k : κ) :
    raise f given k = if k = given.1 then max (f given.1) given.2 else f k := by
  rw [raise, Function.update_apply]

theorem le_raise (f : κ → τ) (given : κ × τ) (k : κ) : f k ≤ raise f given k := by
  rw [raise_apply]
  split_ifs with h
  · subst h
    exact le_max_left _ _
  · exact le_rfl

theorem raiseAll_append (f : κ → τ) (xs ys : List (κ × τ)) :
    raiseAll f (xs ++ ys) = raiseAll (raiseAll f xs) ys := List.foldl_append

theorem le_raiseAll (f : κ → τ) (given : List (κ × τ)) (k : κ) : f k ≤ raiseAll f given k := by
  induction given generalizing f with
  | nil => exact le_rfl
  | cons p rest ih => exact (le_raise f p k).trans (ih (raise f p))

/-- The value of a key is the greatest of its old value and all it was given. -/
theorem isGreatest_raiseAll (f : κ → τ) (given : List (κ × τ)) (k : κ) :
    IsGreatest (insert (f k) {x | (k, x) ∈ given}) (raiseAll f given k) := by
  induction given generalizing f with
  | nil => simp [raiseAll, IsGreatest]
  | cons p rest ih =>
    obtain ⟨hmem, hupper⟩ := ih (raise f p)
    have hold : f k ≤ raiseAll (raise f p) rest k :=
      (le_raise f p k).trans (le_raiseAll (raise f p) rest k)
    have hnew : k = p.1 → p.2 ≤ raiseAll (raise f p) rest k := by
      intro hk
      refine le_trans ?_ (le_raiseAll (raise f p) rest k)
      rw [raise_apply, if_pos hk]
      exact le_max_right _ _
    refine ⟨?_, ?_⟩
    · change raiseAll (raise f p) rest k ∈ _
      rcases hmem with heq | hrest
      · rw [heq, raise_apply]
        split_ifs with hk
        · subst hk
          rcases max_choice (f p.1) p.2 with h | h
          · exact Or.inl h
          · exact Or.inr (by rw [h]; exact List.mem_cons_self)
        · exact Or.inl rfl
      · exact Or.inr (List.mem_cons_of_mem _ hrest)
    · rintro x (rfl | hx)
      · exact hold
      · rcases List.mem_cons.mp hx with heq | hrest
        · exact heq ▸ hnew (congrArg Prod.fst heq)
        · exact hupper (Or.inr hrest)

/-- Order and repetition of what was given do not matter. -/
theorem raiseAll_congr (f : κ → τ) {xs ys : List (κ × τ)} (h : ∀ p, p ∈ xs ↔ p ∈ ys) :
    raiseAll f xs = raiseAll f ys := by
  funext k
  have hsets : {x | (k, x) ∈ xs} = {x | (k, x) ∈ ys} := Set.ext fun x => h (k, x)
  have hxs := isGreatest_raiseAll f xs k
  rw [hsets] at hxs
  exact hxs.unique (isGreatest_raiseAll f ys k)

end Frontier
