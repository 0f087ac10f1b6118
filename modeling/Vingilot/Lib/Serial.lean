import Vingilot.Lib.Plans

/-!
# Calls that take one lock first

When every call takes the same lock before it looks at the database, the calls run one after the
other: what a call commits is what it does alone, on the state that it commits to.
-/

namespace Transactions

open Machine

variable {χ ι σ κ ℓ ω ε : Type*}

section Alone

variable {sys : System χ σ κ ℓ ω ε}

theorem alone_append (db : σ) (l₁ l₂ : List (Statement σ κ ℓ ω ε)) (vars : ℓ) (ws : List ω) :
    alone sys db (l₁ ++ l₂) vars ws =
      match alone sys db l₁ vars ws with
      | .ok (vars, ws) => alone sys db l₂ vars ws
      | .error error => .error error := by
  induction l₁ generalizing vars ws with
  | nil => rfl
  | cons stmt l₁ ih =>
    simp only [List.cons_append, alone]
    cases stmt.exec vars (view sys db ws) with
    | ok r => exact ih r.1 _
    | error error => rfl

theorem alone_append_ok {db : σ} {l₁ l₂ : List (Statement σ κ ℓ ω ε)} {vars : ℓ} {ws : List ω}
    {r : ℓ × List ω} :
    alone sys db (l₁ ++ l₂) vars ws = .ok r ↔
      ∃ vars' ws', alone sys db l₁ vars ws = .ok (vars', ws') ∧
        alone sys db l₂ vars' ws' = .ok r := by
  rw [alone_append]
  cases alone sys db l₁ vars ws with
  | ok x => cases x; simp
  | error error => simp

theorem alone_append_error {db : σ} {l₁ l₂ : List (Statement σ κ ℓ ω ε)} {vars : ℓ}
    {ws : List ω} {error : ε} :
    alone sys db (l₁ ++ l₂) vars ws = .error error ↔
      alone sys db l₁ vars ws = .error error ∨
      ∃ vars' ws', alone sys db l₁ vars ws = .ok (vars', ws') ∧
        alone sys db l₂ vars' ws' = .error error := by
  rw [alone_append]
  cases alone sys db l₁ vars ws with
  | ok x => cases x; simp
  | error error => simp

/-- A statement that does not look at the database. -/
def Statement.Blind (stmt : Statement σ κ ℓ ω ε) : Prop :=
  ∀ vars s s', stmt.exec vars s = stmt.exec vars s'

theorem alone_blind {l : List (Statement σ κ ℓ ω ε)} (h : ∀ stmt ∈ l, stmt.Blind) (db db' : σ)
    (vars : ℓ) (ws : List ω) : alone sys db l vars ws = alone sys db' l vars ws := by
  induction l generalizing vars ws with
  | nil => rfl
  | cons stmt l ih =>
    simp only [alone]
    rw [h stmt List.mem_cons_self vars (view sys db ws) (view sys db' ws)]
    cases stmt.exec vars (view sys db' ws) with
    | ok r => exact ih (fun s hs => h s (List.mem_cons_of_mem _ hs)) r.1 _
    | error error => rfl

end Alone

variable (d : Planned χ ι σ κ ℓ ω ε) (k : κ)

/-- Every plan takes the lock before it looks at the database. -/
def LocksFirst : Prop :=
  ∀ call, ∃ before i after, d.plan call = before ++ i :: after ∧
    (∀ j ∈ before ++ [i], ∀ now, (d.statement now j).Blind) ∧
    ∀ now vars s, (k, Mode.exclusive) ∈ d.locks i now vars s

/-- What a call does alone. -/
def Planned.outcome (db : σ) (call : χ) (now : Int) : Except ε (ℓ × List ω) :=
  alone d.system db (d.system.program call now) d.vars []

/-- An open transaction has done what it would have done alone, and holds the lock unless it has
not looked at the database yet. -/
def Behaves (p : Public χ σ ℓ ε) (t : Tx χ σ κ ℓ ω ε) : Prop :=
  ∃ done todo, d.plan t.call = done ++ todo ∧ t.rest = todo.map (d.statement t.now) ∧
    t.now ≤ p.clock ∧
    alone d.system p.db (done.map (d.statement t.now)) d.vars [] = .ok (t.vars, t.writes) ∧
    ((k, .exclusive) ∈ t.held ∨ ∃ before i after, d.plan t.call = before ++ i :: after ∧
      (∀ j ∈ before ++ [i], ∀ now, (d.statement now j).Blind) ∧
      (∀ now vars s, (k, Mode.exclusive) ∈ d.locks i now vars s) ∧ done <+: before)

variable {d k}

theorem Behaves.finished {p : Public χ σ ℓ ε} {t : Tx χ σ κ ℓ ω ε} (h : Behaves d k p t)
    (hrest : t.rest = []) : (k, .exclusive) ∈ t.held ∧ t.now ≤ p.clock ∧
      d.outcome p.db t.call t.now = .ok (t.vars, t.writes) := by
  obtain ⟨done, todo, hplan, htodo, hnow, halone, hlock⟩ := h
  rw [hrest, List.nil_eq, List.map_eq_nil_iff] at htodo
  subst htodo
  rw [List.append_nil] at hplan
  refine ⟨?_, hnow, ?_⟩
  · rcases hlock with hheld | ⟨before, i, after, hplan', -, -, hpre⟩
    · exact hheld
    · rw [hplan'] at hplan
      have hlong := hpre.length_le
      rw [← hplan, List.length_append, List.length_cons] at hlong
      omega
  · unfold Planned.outcome Planned.system
    simp only [hplan]
    exact halone

/-- What the next statement of a transaction does is what the call alone would do next. -/
theorem Behaves.next {p : Public χ σ ℓ ε} {t : Tx χ σ κ ℓ ω ε} (h : Behaves d k p t)
    {stmt : Statement σ κ ℓ ω ε} {rest : List (Statement σ κ ℓ ω ε)} (hrest : t.rest = stmt :: rest)
    {error : ε} (hexec : stmt.exec t.vars (view d.system p.db t.writes) = .error error) :
    d.outcome p.db t.call t.now = .error error := by
  obtain ⟨done, todo, hplan, htodo, hnow, halone, -⟩ := h
  rw [hrest] at htodo
  unfold Planned.outcome Planned.system
  simp only [hplan, List.map_append, ← htodo]
  refine (alone_append ..).trans ?_
  simp only [Planned.system] at halone
  rw [halone]
  exact alone_stop hexec

theorem Behaves.exec {p : Public χ σ ℓ ε} {t : Tx χ σ κ ℓ ω ε} (h : Behaves d k p t)
    {stmt : Statement σ κ ℓ ω ε} {rest : List (Statement σ κ ℓ ω ε)} (hrest : t.rest = stmt :: rest)
    {vars : ℓ} {ws : List ω}
    (hexec : stmt.exec t.vars (view d.system p.db t.writes) = .ok (vars, ws)) :
    Behaves d k p
      (t.after rest (stmt.locks t.vars (view d.system p.db t.writes)) vars ws) := by
  obtain ⟨done, todo, hplan, htodo, hnow, halone, hlock⟩ := h
  rw [hrest] at htodo
  obtain ⟨j, todo, rfl, rfl, rfl⟩ := List.map_eq_cons_iff.mp htodo.symm
  refine ⟨done ++ [j], todo, by rw [List.append_assoc]; exact hplan, rfl, hnow, ?_, ?_⟩
  · rw [List.map_append, alone_append, Tx.after_now, halone]
    exact alone_ok hexec
  · rcases hlock with hheld | ⟨before, i, after, hplan', hblind, hlocks, hpre⟩
    · exact .inl (List.mem_append_left _ hheld)
    · obtain ⟨more, rfl⟩ := hpre
      rw [hplan, List.append_assoc, List.append_cancel_left_eq] at hplan'
      cases more with
      | nil =>
        cases hplan'
        exact .inl (List.mem_append_right _ (hlocks ..))
      | cons j' more =>
        cases hplan'
        refine .inr ⟨done ++ j :: more, i, after, ?_, hblind, hlocks, ⟨more, by simp⟩⟩
        rw [Tx.after_call, hplan]
        simp

theorem Behaves.commit [DecidableEq κ] {p : Public χ σ ℓ ε} {t u : Tx χ σ κ ℓ ω ε}
    (ht : (k, .exclusive) ∈ t.held) (hu : Behaves d k p u)
    (hfit : conflict t.held u.held = false) : Behaves d k (p.commit d.system t) u := by
  obtain ⟨done, todo, hplan, htodo, hnow, halone, hlock⟩ := hu
  have hfree : (k, Mode.exclusive) ∉ u.held := by
    intro hheld
    rw [conflict_of_mem ht hheld] at hfit
    cases hfit
  rcases hlock with hheld | ⟨before, i, after, hplan', hblind, hlocks, hpre⟩
  · exact absurd hheld hfree
  · refine ⟨done, todo, hplan, htodo, hnow, ?_,
      .inr ⟨before, i, after, hplan', hblind, hlocks, hpre⟩⟩
    rw [← halone]
    refine alone_blind ?_ _ _ _ _
    intro stmt hstmt
    obtain ⟨j, hj, rfl⟩ := List.mem_map.mp hstmt
    exact hblind j (List.mem_append_left _ (hpre.subset hj)) _

theorem Behaves.fresh (h : LocksFirst d k) (p : Public χ σ ℓ ε) (call : χ) :
    Behaves d k p (fresh d.system call p.clock) := by
  obtain ⟨before, i, after, hplan, hblind, hlocks⟩ := h call
  exact ⟨[], d.plan call, rfl, rfl, Int.le_refl _, rfl,
    .inr ⟨before, i, after, hplan, hblind, hlocks, List.nil_prefix⟩⟩

/-! ## The proof rule -/

/-- An invariant that every call keeps when it runs alone, whether it commits or is refused. -/
structure SerialRule (d : Planned χ ι σ κ ℓ ω ε) (mayFail : ε → Prop)
    (inv : Public χ σ ℓ ε → Prop) : Prop where
  advance : ∀ p micros, inv p → inv (p.advance micros)
  fail : ∀ p call error, inv p → mayFail error → inv (p.refuse call error)
  refuse : ∀ p call now error, inv p → now ≤ p.clock → d.outcome p.db call now = .error error →
    inv (p.refuse call error)
  commit : ∀ p (t : Tx χ σ κ ℓ ω ε), inv p → t.now ≤ p.clock →
    d.outcome p.db t.call t.now = .ok (t.vars, t.writes) → inv (p.commit d.system t)

/-- The failures from outside are of a kind that is allowed. -/
def FailsOnly (mayFail : ε → Prop) : Action χ ε → Prop
  | .fail _ error => mayFail error
  | _ => True

variable [DecidableEq κ]

structure SerialKept (d : Planned χ ι σ κ ℓ ω ε) (k : κ) (inv : Public χ σ ℓ ε → Prop)
    (s : World χ σ κ ℓ ω ε) : Prop where
  inv : inv s.pub
  own : ∀ i t, s.txs.get? i = some t → Behaves d k s.pub t
  locks : LocksFit s

theorem Step.serialKept {mayFail : ε → Prop} {inv : Public χ σ ℓ ε → Prop}
    (rule : SerialRule d mayFail inv) (hfirst : LocksFirst d k) {a : Action χ ε}
    {s s' : World χ σ κ ℓ ω ε} (h : Step d.system s a s') (hfails : FailsOnly mayFail a)
    (hs : SerialKept d k inv s) : SerialKept d k inv s' := by
  refine ⟨?_, ?_, h.locksFit hs.locks⟩
  · cases h with
    | advance micros => exact rule.advance _ _ hs.inv
    | begin call => exact hs.inv
    | exec hopen hrest hfree hexec => exact hs.inv
    | commit hopen hrest =>
      obtain ⟨-, hnow, houtcome⟩ := (hs.own _ _ hopen).finished hrest
      exact rule.commit _ _ hs.inv hnow houtcome
    | refuse hopen hrest hexec =>
      have hnext := (hs.own _ _ hopen).next hrest hexec
      obtain ⟨-, -, -, -, hnow, -⟩ := hs.own _ _ hopen
      exact rule.refuse _ _ _ _ hs.inv hnow hnext
    | fail error hopen => exact rule.fail _ _ _ hs.inv hfails
  · intro i u hu
    cases h with
    | advance micros =>
      obtain ⟨done, todo, hplan, htodo, hnow, hrest⟩ := hs.own i u hu
      refine ⟨done, todo, hplan, htodo, ?_, hrest⟩
      simp only [Public.advance]
      omega
    | begin call =>
      simp only [Table.get?_set] at hu
      split_ifs at hu with hi
      · cases hu; exact .fresh hfirst _ _
      · exact hs.own i u hu
    | exec hopen hrest hfree hexec =>
      simp only [Table.get?_set] at hu
      split_ifs at hu with hi
      · cases hu
        exact (hs.own _ _ hopen).exec hrest hexec
      · exact hs.own i u hu
    | commit hopen hrest =>
      simp only [Table.get?_remove] at hu
      split_ifs at hu with hi
      exact .commit ((hs.own _ _ hopen).finished hrest).1 (hs.own _ _ hu)
        (hs.locks _ _ _ _ hopen hu (Ne.symm hi))
    | refuse hopen hrest hexec =>
      simp only [Table.get?_remove] at hu
      split_ifs at hu with hi
      exact hs.own _ _ hu
    | fail error hopen =>
      simp only [Table.get?_remove] at hu
      split_ifs at hu with hi
      exact hs.own _ _ hu

/-- What every call keeps alone holds in every state of every interleaving. -/
theorem run_serial {mayFail : ε → Prop} {inv : Public χ σ ℓ ε → Prop}
    (rule : SerialRule d mayFail inv) (hfirst : LocksFirst d k) {clock : Int} {db : σ}
    {as : List (Action χ ε)} {s : World χ σ κ ℓ ω ε} (hinit : inv ⟨clock, db, []⟩)
    (hfails : ∀ a ∈ as, FailsOnly mayFail a)
    (hrun : run (step d.system) (World.init clock db) as = some s) : inv s.pub := by
  have hstart : SerialKept d k inv (World.init clock db) := by
    refine ⟨hinit, ?_, ?_⟩
    · intro i t ht; cases ht
    · intro i j t u ht; cases ht
  suffices h : SerialKept d k inv s from h.inv
  generalize World.init clock db = s₀ at hstart hrun
  induction as generalizing s₀ with
  | nil => cases hrun; exact hstart
  | cons a as ih =>
    obtain ⟨s₁, hstep, hrest⟩ := run_cons_some.mp hrun
    exact ih (fun b hb => hfails b (List.mem_cons_of_mem a hb)) s₁
      ((step_cases hstep).serialKept rule hfirst (hfails a List.mem_cons_self) hstart) hrest

end Transactions
