import Vingilot.Lib.Transactions

/-!
# Transactions written as plans

The statements of a call come from a fixed set of kinds, so what an open transaction has done is
the front part of a list. A condition of an open transaction may then speak of what it has done.

Every write is guarded by a lock of its own, which the statement takes. A row that a transaction
has locked is not changed by the others.
-/

namespace Transactions

open Machine

/-- A kind of database whose programs are lists of statement kinds. -/
structure Planned (χ ι σ κ ℓ ω ε : Type*) where
  apply : σ → ω → σ
  vars : ℓ
  plan : χ → List ι
  locks : ι → Int → ℓ → σ → List (κ × Mode)
  exec : ι → Int → ℓ → σ → Except ε (ℓ × List ω)
  /-- The lock that guards a write. -/
  lockOf : ω → κ

variable {χ ι σ κ ℓ ω ε ρ : Type*}

def Planned.statement (d : Planned χ ι σ κ ℓ ω ε) (now : Int) (k : ι) : Statement σ κ ℓ ω ε :=
  ⟨d.locks k now, d.exec k now⟩

def Planned.system (d : Planned χ ι σ κ ℓ ω ε) : System χ σ κ ℓ ω ε :=
  ⟨d.apply, d.vars, fun call now => (d.plan call).map (d.statement now)⟩

def Planned.seen (d : Planned χ ι σ κ ℓ ω ε) (db : σ) (t : Tx χ σ κ ℓ ω ε) : σ :=
  view d.system db t.writes

def Planned.Disciplined (d : Planned χ ι σ κ ℓ ω ε) : Prop :=
  ∀ k now vars s vars' ws, d.exec k now vars s = .ok (vars', ws) →
    ∀ w ∈ ws, (d.lockOf w, Mode.exclusive) ∈ d.locks k now vars s

def Planned.Locked (d : Planned χ ι σ κ ℓ ω ε) (t : Tx χ σ κ ℓ ω ε) : Prop :=
  ∀ w ∈ t.writes, (d.lockOf w, Mode.exclusive) ∈ t.held

section After

variable (t : Tx χ σ κ ℓ ω ε) (rest : List (Statement σ κ ℓ ω ε)) (locks : List (κ × Mode))
  (vars : ℓ) (writes : List ω)

@[simp]
theorem Tx.after_call : (t.after rest locks vars writes).call = t.call := rfl

@[simp]
theorem Tx.after_now : (t.after rest locks vars writes).now = t.now := rfl

@[simp]
theorem Tx.after_vars : (t.after rest locks vars writes).vars = vars := rfl

@[simp]
theorem Tx.after_writes : (t.after rest locks vars writes).writes = t.writes ++ writes := rfl

theorem Planned.seen_after (d : Planned χ ι σ κ ℓ ω ε) (db : σ) :
    d.seen db (t.after rest locks vars writes) = view d.system (d.seen db t) writes :=
  List.foldl_append

end After

/-! ## Order within a plan -/

/-- Each statement of `todo` finds what it needs among the statements before it. -/
def Ordered (needs : List ι → ι → Prop) : List ι → List ι → Prop
  | _, [] => True
  | done, k :: todo => needs done k ∧ Ordered needs (done ++ [k]) todo

variable {done : List ι}

theorem ordered_append {needs : List ι → ι → Prop} {l₁ l₂ : List ι} :
    Ordered needs done (l₁ ++ l₂) ↔ Ordered needs done l₁ ∧ Ordered needs (done ++ l₁) l₂ := by
  induction l₁ generalizing done with
  | nil => simp [Ordered]
  | cons k l₁ ih => simp [Ordered, ih, and_assoc]

theorem needs_of_ordered {needs : List ι → ι → Prop} {todo : List ι} {k : ι}
    (h : Ordered needs [] (done ++ k :: todo)) : needs done k := by
  rw [ordered_append] at h
  simpa using h.2.1

/-! ## Rows and their locks -/

variable {k : κ} {read : σ → ρ} {u : Tx χ σ κ ℓ ω ε} {db : σ}

section Rows

variable (d : Planned χ ι σ κ ℓ ω ε)

/-- A part of the state that only the writes guarded by one lock change. -/
structure Row (k : κ) (read : σ → ρ) where
  next : ρ → ω → ρ
  read_apply : ∀ s w, read (d.apply s w) = next (read s) w
  next_other : ∀ x w, d.lockOf w ≠ k → next x w = x

variable {d}

theorem Row.read_view (row : Row d k read) (s : σ) (ws : List ω) :
    read (view d.system s ws) = ws.foldl row.next (read s) := by
  induction ws generalizing s with
  | nil => rfl
  | cons w ws ih => exact (ih _).trans (by rw [List.foldl_cons, ← row.read_apply]; rfl)

theorem Row.read_spared (row : Row d k read) {s : σ} {ws : List ω} (h : ∀ w ∈ ws, d.lockOf w ≠ k) :
    read (view d.system s ws) = read s := by
  rw [row.read_view]
  induction ws with
  | nil => rfl
  | cons w ws ih =>
    rw [List.foldl_cons, row.next_other _ _ (h w List.mem_cons_self)]
    exact ih fun w' hw' => h w' (List.mem_cons_of_mem w hw')

variable [DecidableEq κ]

/-- Nobody writes what another transaction has locked. -/
theorem spared_of_held {t : Tx χ σ κ ℓ ω ε} {m : Mode} (ht : d.Locked t)
    (hfit : conflict t.held u.held = false) (hu : (k, m) ∈ u.held) :
    ∀ w ∈ t.writes, d.lockOf w ≠ k := by
  rintro w hw rfl
  have hconflict : conflict u.held t.held = true := conflict_of_mem hu (ht w hw)
  rw [conflict_comm, hfit] at hconflict
  cases hconflict

theorem not_exclusive_of_held {t : Tx χ σ κ ℓ ω ε} {m : Mode}
    (hfit : conflict t.held u.held = false) (hu : (k, m) ∈ u.held) :
    (k, Mode.exclusive) ∉ t.held := by
  intro ht
  have hconflict : conflict u.held t.held = true := conflict_of_mem hu ht
  rw [conflict_comm, hfit] at hconflict
  cases hconflict

/-- A row that the transaction has written is not touched by the commit of another. One that it
has not written looks as the commit leaves it. -/
theorem Row.seen_cases (row : Row d k read) {t : Tx χ σ κ ℓ ω ε} (ht : d.Locked t) (hu : d.Locked u)
    (hfit : conflict t.held u.held = false) :
    (read (d.seen db t) = read db ∧ read (d.seen (d.seen db t) u) = read (d.seen db u)) ∨
      (read (d.seen db u) = read db ∧ read (d.seen (d.seen db t) u) = read (d.seen db t)) := by
  by_cases hwrites : ∃ w ∈ u.writes, d.lockOf w = k
  · obtain ⟨w, hw, rfl⟩ := hwrites
    have hsame : read (d.seen db t) = read db :=
      row.read_spared (spared_of_held ht hfit (hu w hw))
    refine .inl ⟨hsame, ?_⟩
    unfold Planned.seen at hsame ⊢
    rw [row.read_view _ u.writes, row.read_view _ u.writes, hsame]
  · have hspared : ∀ w ∈ u.writes, d.lockOf w ≠ k := fun w hw heq => hwrites ⟨w, hw, heq⟩
    exact .inr ⟨row.read_spared hspared, row.read_spared hspared⟩

/-- What a transaction has made of a row is what it makes of it after a commit of another. -/
theorem Row.related_commit (row : Row d k read) {rel : ρ → ρ → Prop} (hrefl : ∀ x, rel x x)
    {t : Tx χ σ κ ℓ ω ε} (ht : d.Locked t) (hu : d.Locked u) (hfit : conflict t.held u.held = false)
    (h : rel (read db) (read (d.seen db u))) :
    rel (read (d.seen db t)) (read (d.seen (d.seen db t) u)) := by
  rcases row.seen_cases ht hu hfit with ⟨hsame, hseen⟩ | ⟨-, hseen⟩
  · rw [hsame, hseen]
    exact h
  · rw [hseen]
    exact hrefl _

theorem Row.related_seen (row : Row d k read) {rel : ρ → ρ → Prop} (hrefl : ∀ x, rel x x)
    {t : Tx χ σ κ ℓ ω ε} (ht : d.Locked t) (hu : d.Locked u) (hfit : conflict t.held u.held = false)
    (h : rel (read db) (read (d.seen db t))) :
    rel (read (d.seen db u)) (read (d.seen (d.seen db t) u)) := by
  rcases row.seen_cases ht hu hfit with ⟨-, hseen⟩ | ⟨hsame, hseen⟩
  · rw [hseen]
    exact hrefl _
  · rw [hsame, hseen]
    exact h

end Rows

/-! ## The proof rule -/

section Rule

variable [DecidableEq κ] (d : Planned χ ι σ κ ℓ ω ε)

def Planned.next (t : Tx χ σ κ ℓ ω ε) : Option ι :=
  (d.plan t.call)[(d.plan t.call).length - t.rest.length]?

omit [DecidableEq κ] in
theorem Planned.next_eq {t : Tx χ σ κ ℓ ω ε} {todo : List ι} {k : ι}
    (hplan : d.plan t.call = done ++ k :: todo)
    (hrest : t.rest = (k :: todo).map (d.statement t.now)) : d.next t = some k := by
  unfold Planned.next
  rw [hplan, hrest]
  simp

/-- Which statements and which commits a run of a planned system may take. -/
structure PlanGuard (χ ι σ κ ℓ ω ε : Type*) where
  exec : Public χ σ ℓ ε → Tx χ σ κ ℓ ω ε → ι → Prop
  commit : Public χ σ ℓ ε → Tx χ σ κ ℓ ω ε → Prop

def PlanGuard.any : PlanGuard χ ι σ κ ℓ ω ε := ⟨fun _ _ _ => True, fun _ _ => True⟩

def Planned.guard (g : PlanGuard χ ι σ κ ℓ ω ε) : Guard χ σ κ ℓ ω ε where
  exec p t := ∀ k ∈ d.next t, g.exec p t k
  commit := g.commit

instance Planned.decidableGuardExec (g : PlanGuard χ ι σ κ ℓ ω ε)
    [∀ p t k, Decidable (g.exec p t k)] (p : Public χ σ ℓ ε) (t : Tx χ σ κ ℓ ω ε) :
    Decidable ((d.guard g).exec p t) :=
  inferInstanceAs (Decidable (∀ k ∈ d.next t, g.exec p t k))

instance Planned.decidableGuardCommit (g : PlanGuard χ ι σ κ ℓ ω ε)
    [∀ p t, Decidable (g.commit p t)] (p : Public χ σ ℓ ε) (t : Tx χ σ κ ℓ ω ε) :
    Decidable ((d.guard g).commit p t) :=
  inferInstanceAs (Decidable (g.commit p t))

variable {g : PlanGuard χ ι σ κ ℓ ω ε}

/-- An invariant of the public state, and a condition of each open transaction that knows what
the transaction has done, on top of others that are known to hold. -/
structure PlanRule (g : PlanGuard χ ι σ κ ℓ ω ε) (given : Public χ σ ℓ ε → Prop)
    (givenOwn : σ → List ι → Tx χ σ κ ℓ ω ε → Prop) (inv : Public χ σ ℓ ε → Prop)
    (own : σ → List ι → Tx χ σ κ ℓ ω ε → Prop) : Prop where
  advance : ∀ p micros, inv p → inv (p.advance micros)
  refuse : ∀ p call error, inv p → inv (p.refuse call error)
  begin : ∀ p call, inv p → own p.db [] (fresh d.system call p.clock)
  exec : ∀ p done k todo t vars ws, given p → inv p → givenOwn p.db done t → own p.db done t →
    d.plan t.call = done ++ k :: todo → g.exec p t k →
    d.exec k t.now t.vars (d.seen p.db t) = .ok (vars, ws) →
    own p.db (done ++ [k])
      (t.after (todo.map (d.statement t.now)) (d.locks k t.now t.vars (d.seen p.db t)) vars ws)
  commit : ∀ p t, given p → inv p → givenOwn p.db (d.plan t.call) t →
    own p.db (d.plan t.call) t → d.Locked t → t.now ≤ p.clock → g.commit p t →
    inv (p.commit d.system t)
  ownCommit : ∀ p t u done, given p → inv p → givenOwn p.db (d.plan t.call) t →
    own p.db (d.plan t.call) t → givenOwn p.db done u → own p.db done u → d.Locked t →
    d.Locked u → conflict t.held u.held = false → g.commit p t → own (d.seen p.db t) done u

variable {d} {given inv inv' : Public χ σ ℓ ε → Prop}
  {givenOwn own own' : σ → List ι → Tx χ σ κ ℓ ω ε → Prop}

theorem PlanRule.and (base : PlanRule d g given givenOwn inv own)
    (top : PlanRule d g (fun p => given p ∧ inv p)
      (fun db done t => givenOwn db done t ∧ own db done t) inv' own') :
    PlanRule d g given givenOwn (fun p => inv p ∧ inv' p)
      (fun db done t => own db done t ∧ own' db done t) where
  advance p micros h := ⟨base.advance p micros h.1, top.advance p micros h.2⟩
  refuse p call error h := ⟨base.refuse p call error h.1, top.refuse p call error h.2⟩
  begin p call h := ⟨base.begin p call h.1, top.begin p call h.2⟩
  exec p done k todo t vars ws hg h hgo ho hplan hmay hexec :=
    ⟨base.exec p done k todo t vars ws hg h.1 hgo ho.1 hplan hmay hexec,
      top.exec p done k todo t vars ws ⟨hg, h.1⟩ h.2 ⟨hgo, ho.1⟩ ho.2 hplan hmay hexec⟩
  commit p t hg h hgo ho hl hnow hmay :=
    ⟨base.commit p t hg h.1 hgo ho.1 hl hnow hmay,
      top.commit p t ⟨hg, h.1⟩ h.2 ⟨hgo, ho.1⟩ ho.2 hl hnow hmay⟩
  ownCommit p t u done hg h hgt ht hgu hu hlt hlu hfit hmay :=
    ⟨base.ownCommit p t u done hg h.1 hgt ht.1 hgu hu.1 hlt hlu hfit hmay,
      top.ownCommit p t u done ⟨hg, h.1⟩ h.2 ⟨hgt, ht.1⟩ ht.2 ⟨hgu, hu.1⟩ hu.2 hlt hlu hfit hmay⟩

theorem PlanRule.guarded (h : PlanRule d .any given givenOwn inv own) :
    PlanRule d g given givenOwn inv own where
  advance := h.advance
  refuse := h.refuse
  begin := h.begin
  exec p done k todo t vars ws hg hi hgo ho hplan _ :=
    h.exec p done k todo t vars ws hg hi hgo ho hplan trivial
  commit p t hg hi hgo ho hl hnow _ := h.commit p t hg hi hgo ho hl hnow trivial
  ownCommit p t u done hg hi hgt ht hgu hu hlt hlu hfit _ :=
    h.ownCommit p t u done hg hi hgt ht hgu hu hlt hlu hfit trivial

/-- What every open transaction of a planned system is like: the rest of its plan is to do, its
writes are locked, and it began in the past. -/
def Open (d : Planned χ ι σ κ ℓ ω ε) (own : σ → List ι → Tx χ σ κ ℓ ω ε → Prop)
    (p : Public χ σ ℓ ε) (t : Tx χ σ κ ℓ ω ε) : Prop :=
  ∃ done todo, d.plan t.call = done ++ todo ∧ t.rest = todo.map (d.statement t.now) ∧
    d.Locked t ∧ t.now ≤ p.clock ∧ own p.db done t

omit [DecidableEq κ] in
theorem Open.finished {p : Public χ σ ℓ ε} {t : Tx χ σ κ ℓ ω ε} (h : Open d own p t)
    (hrest : t.rest = []) : d.Locked t ∧ t.now ≤ p.clock ∧ own p.db (d.plan t.call) t := by
  obtain ⟨done, todo, hplan, htodo, hlocked, hnow, hown⟩ := h
  rw [hrest, List.nil_eq, List.map_eq_nil_iff] at htodo
  subst htodo
  rw [List.append_nil] at hplan
  rw [hplan]
  exact ⟨hlocked, hnow, hown⟩

theorem PlanRule.rule (h : PlanRule d g (fun _ => True) (fun _ _ _ => True) inv own)
    (hd : d.Disciplined) : Rule d.system (d.guard g) inv (Open d own) where
  advance := h.advance
  refuse := h.refuse
  commit p t hinv hopen hrest hmay := by
    obtain ⟨hlocked, hnow, hown⟩ := hopen.finished hrest
    exact h.commit p t trivial hinv trivial hown hlocked hnow hmay
  begin p call hinv :=
    ⟨[], d.plan call, rfl, rfl, fun w hw => absurd hw List.not_mem_nil, Int.le_refl _,
      h.begin p call hinv⟩
  exec p t stmt rest vars ws hinv hopen hrest hmay hexec := by
    obtain ⟨done, todo, hplan, htodo, hlocked, hnow, hown⟩ := hopen
    have hall := htodo
    rw [hrest] at htodo
    obtain ⟨k, todo, rfl, rfl, rfl⟩ := List.map_eq_cons_iff.mp htodo.symm
    refine ⟨done ++ [k], todo, by rw [List.append_assoc]; exact hplan, rfl, ?_, hnow,
      h.exec p done k todo t vars ws trivial hinv trivial hown hplan
        (hmay k (d.next_eq hplan hall)) hexec⟩
    intro w hw
    rcases List.mem_append.mp hw with hw | hw
    · exact List.mem_append_left _ (hlocked w hw)
    · exact List.mem_append_right _ (hd k t.now t.vars _ vars ws hexec w hw)
  ownAdvance p t micros := by
    rintro ⟨done, todo, hplan, htodo, hlocked, hnow, hown⟩
    refine ⟨done, todo, hplan, htodo, hlocked, ?_, hown⟩
    simp only [Public.advance]
    omega
  ownRefuse p t call error hopen := hopen
  ownCommit p t u hinv ht hu hrest hfit hmay := by
    obtain ⟨hlocked, -, hown⟩ := ht.finished hrest
    obtain ⟨done, todo, hplan, htodo, hlocked', hnow, hown'⟩ := hu
    exact ⟨done, todo, hplan, htodo, hlocked', hnow,
      h.ownCommit p t u done trivial hinv trivial hown trivial hown' hlocked hlocked' hfit hmay⟩

theorem PlanRule.always (h : PlanRule d .any (fun _ => True) (fun _ _ _ => True) inv own)
    (hd : d.Disciplined) : Rule d.system .any inv (Open d own) :=
  { h.rule hd with
    commit := fun p t hinv hopen hrest _ => (h.rule hd).commit p t hinv hopen hrest trivial
    exec := fun p t stmt rest vars ws hinv hopen hrest _ hexec =>
      (h.rule hd).exec p t stmt rest vars ws hinv hopen hrest (fun _ _ => trivial) hexec
    ownCommit := fun p t u hinv ht hu hrest hfit _ =>
      (h.rule hd).ownCommit p t u hinv ht hu hrest hfit trivial }

end Rule

end Transactions
