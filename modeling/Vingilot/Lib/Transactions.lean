import Vingilot.Lib.Collections
import Vingilot.Lib.Machine

/-!
# Transactions that interleave statement by statement

A transaction is a list of statements. Each statement reads what is committed when it runs,
with the transaction's own writes over it, and takes its locks first. Locks are held to the end.
A statement whose lock another transaction holds cannot run yet. Writes become visible at the
commit, all at once.

`run_keeps` is the proof rule: an invariant of the public state, and for each open transaction a
condition that the commits of the others do not break.
-/

namespace Transactions

open Machine

inductive Mode where
  | shared
  | exclusive

def Mode.fits : Mode → Mode → Bool
  | .shared, .shared => true
  | _, _ => false

/-- The locks are asked of the state in which the statement runs. -/
structure Statement (σ κ ℓ ω ε : Type*) where
  locks : ℓ → σ → List (κ × Mode)
  exec : ℓ → σ → Except ε (ℓ × List ω)

/-- A kind of database: how a write changes it, and the program of each call. The program may
use the time at which the transaction began. -/
structure System (χ σ κ ℓ ω ε : Type*) where
  apply : σ → ω → σ
  vars : ℓ
  program : χ → Int → List (Statement σ κ ℓ ω ε)

structure Tx (χ σ κ ℓ ω ε : Type*) where
  call : χ
  now : Int
  rest : List (Statement σ κ ℓ ω ε)
  held : List (κ × Mode)
  vars : ℓ
  writes : List ω

/-- What does not belong to one transaction: the clock, the committed state and the answers. -/
structure Public (χ σ ℓ ε : Type*) where
  clock : Int
  db : σ
  answers : List (χ × Except ε ℓ)

structure World (χ σ κ ℓ ω ε : Type*) where
  pub : Public χ σ ℓ ε
  txs : Table Nat (Tx χ σ κ ℓ ω ε)
  started : Nat

inductive Action (χ ε : Type*) where
  | advance (micros : Nat)
  | begin (call : χ)
  | exec (tx : Nat)
  | commit (tx : Nat)
  /-- The database refuses the transaction for a reason outside the model. -/
  | fail (tx : Nat) (error : ε)
deriving DecidableEq

variable {χ σ κ ℓ ω ε : Type*} [DecidableEq κ]

def conflict (held wanted : List (κ × Mode)) : Bool :=
  held.any fun h => wanted.any fun w => h.1 == w.1 && !(h.2.fits w.2)

variable (sys : System χ σ κ ℓ ω ε)

/-- What a transaction sees. -/
def view (db : σ) (writes : List ω) : σ := writes.foldl sys.apply db

def fresh (call : χ) (now : Int) : Tx χ σ κ ℓ ω ε :=
  ⟨call, now, sys.program call now, [], sys.vars, []⟩

def Public.advance (p : Public χ σ ℓ ε) (micros : Nat) : Public χ σ ℓ ε :=
  { p with clock := p.clock + micros }

def Public.commit (p : Public χ σ ℓ ε) (t : Tx χ σ κ ℓ ω ε) : Public χ σ ℓ ε :=
  { p with db := view sys p.db t.writes, answers := p.answers ++ [(t.call, .ok t.vars)] }

def Public.refuse (p : Public χ σ ℓ ε) (call : χ) (error : ε) : Public χ σ ℓ ε :=
  { p with answers := p.answers ++ [(call, .error error)] }

def Tx.after (t : Tx χ σ κ ℓ ω ε) (rest : List (Statement σ κ ℓ ω ε)) (locks : List (κ × Mode))
    (vars : ℓ) (writes : List ω) : Tx χ σ κ ℓ ω ε :=
  { t with rest, held := t.held ++ locks, vars, writes := t.writes ++ writes }

def blocked (s : World χ σ κ ℓ ω ε) (tx : Nat) (wanted : List (κ × Mode)) : Bool :=
  s.txs.toList.any fun (id, t) => id != tx && conflict t.held wanted

def step (s : World χ σ κ ℓ ω ε) : Action χ ε → Option (World χ σ κ ℓ ω ε)
  | .advance micros => some { s with pub := s.pub.advance micros }
  | .begin call =>
    some { s with txs := s.txs.set s.started (fresh sys call s.pub.clock), started := s.started + 1 }
  | .exec tx => do
    let t ← s.txs.get? tx
    match t.rest with
    | [] => none
    | stmt :: rest =>
      let seen := view sys s.pub.db t.writes
      let locks := stmt.locks t.vars seen
      if blocked s tx locks then none
      else match stmt.exec t.vars seen with
        | .ok (vars, writes) => some { s with txs := s.txs.set tx (t.after rest locks vars writes) }
        | .error error =>
          some { s with pub := s.pub.refuse t.call error, txs := s.txs.remove tx }
  | .commit tx => do
    let t ← s.txs.get? tx
    match t.rest with
    | [] => some { s with pub := s.pub.commit sys t, txs := s.txs.remove tx }
    | _ :: _ => none
  | .fail tx error => do
    let t ← s.txs.get? tx
    some { s with pub := s.pub.refuse t.call error, txs := s.txs.remove tx }

/-- The statements in a row, with no other transaction in between. -/
def alone (db : σ) : List (Statement σ κ ℓ ω ε) → ℓ → List ω → Except ε (ℓ × List ω)
  | [], vars, writes => .ok (vars, writes)
  | stmt :: rest, vars, writes =>
    match stmt.exec vars (view sys db writes) with
    | .ok (vars, more) => alone db rest vars (writes ++ more)
    | .error error => .error error

def World.init (clock : Int) (db : σ) : World χ σ κ ℓ ω ε := ⟨⟨clock, db, []⟩, ∅, 0⟩

/-! ## What a step can do -/

/-- One constructor for each way a step can go, with what it knows of the open transaction. -/
inductive Step (s : World χ σ κ ℓ ω ε) : Action χ ε → World χ σ κ ℓ ω ε → Prop
  | advance (micros : Nat) : Step s (.advance micros) { s with pub := s.pub.advance micros }
  | begin (call : χ) :
      Step s (.begin call) { s with
        txs := s.txs.set s.started (fresh sys call s.pub.clock), started := s.started + 1 }
  | exec {tx : Nat} {t : Tx χ σ κ ℓ ω ε} {stmt : Statement σ κ ℓ ω ε}
      {rest : List (Statement σ κ ℓ ω ε)} {vars : ℓ} {writes : List ω}
      (hopen : s.txs.get? tx = some t) (hrest : t.rest = stmt :: rest)
      (hfree : blocked s tx (stmt.locks t.vars (view sys s.pub.db t.writes)) = false)
      (hexec : stmt.exec t.vars (view sys s.pub.db t.writes) = .ok (vars, writes)) :
      Step s (.exec tx) { s with
        txs := s.txs.set tx
          (t.after rest (stmt.locks t.vars (view sys s.pub.db t.writes)) vars writes) }
  | commit {tx : Nat} {t : Tx χ σ κ ℓ ω ε} (hopen : s.txs.get? tx = some t) (hrest : t.rest = []) :
      Step s (.commit tx) { s with pub := s.pub.commit sys t, txs := s.txs.remove tx }
  | refuse {tx : Nat} {t : Tx χ σ κ ℓ ω ε} {stmt : Statement σ κ ℓ ω ε}
      {rest : List (Statement σ κ ℓ ω ε)} {error : ε}
      (hopen : s.txs.get? tx = some t) (hrest : t.rest = stmt :: rest)
      (hexec : stmt.exec t.vars (view sys s.pub.db t.writes) = .error error) :
      Step s (.exec tx) { s with pub := s.pub.refuse t.call error, txs := s.txs.remove tx }
  | fail {tx : Nat} {t : Tx χ σ κ ℓ ω ε} (error : ε) (hopen : s.txs.get? tx = some t) :
      Step s (.fail tx error) { s with pub := s.pub.refuse t.call error, txs := s.txs.remove tx }

variable {sys}

variable {s s' : World χ σ κ ℓ ω ε} {a : Action χ ε}

theorem step_cases (h : step sys s a = some s') : Step sys s a s' := by
  cases a with
  | advance micros => cases h; exact .advance micros
  | begin call => cases h; exact .begin call
  | exec tx =>
    simp only [step, Option.bind_eq_bind, Option.bind_eq_some_iff] at h
    obtain ⟨t, hopen, h⟩ := h
    split at h
    · cases h
    · rename_i stmt rest hrest
      split at h
      · cases h
      · rename_i hfree
        split at h
        · rename_i vars writes hexec
          cases h
          exact .exec hopen hrest (by simpa using hfree) hexec
        · rename_i error hexec
          cases h
          exact .refuse hopen hrest hexec
  | commit tx =>
    simp only [step, Option.bind_eq_bind, Option.bind_eq_some_iff] at h
    obtain ⟨t, hopen, h⟩ := h
    split at h
    · rename_i hrest; cases h; exact .commit hopen hrest
    · cases h
  | fail tx error =>
    simp only [step, Option.bind_eq_bind, Option.bind_eq_some_iff] at h
    obtain ⟨t, hopen, h⟩ := h
    cases h
    exact .fail error hopen

theorem step_commit {tx : Nat} (h : step sys s (.commit tx) = some s') :
    ∃ t, s.txs.get? tx = some t ∧ t.rest = [] ∧ s'.pub = s.pub.commit sys t := by
  simp only [step, Option.bind_eq_bind, Option.bind_eq_some_iff] at h
  obtain ⟨t, hopen, h⟩ := h
  split at h
  · rename_i hrest
    cases h
    exact ⟨t, hopen, hrest, rfl⟩
  · cases h

/-- Only a commit changes what is committed. -/
theorem step_db (h : step sys s a = some s') (hcommit : ∀ tx, a ≠ .commit tx) :
    s'.pub.db = s.pub.db := by
  cases step_cases h with
  | commit hopen hrest => exact absurd rfl (hcommit _)
  | _ => rfl

/-! ## A transaction alone -/

variable {db : σ} {stmt : Statement σ κ ℓ ω ε} {rest : List (Statement σ κ ℓ ω ε)} {vars : ℓ}
  {ws : List ω}

omit [DecidableEq κ] in
theorem alone_ok {vars' : ℓ} {more : List ω}
    (h : stmt.exec vars (view sys db ws) = .ok (vars', more)) :
    alone sys db (stmt :: rest) vars ws = alone sys db rest vars' (ws ++ more) := by
  simp only [alone, h]

omit [DecidableEq κ] in
theorem alone_stop {error : ε} (h : stmt.exec vars (view sys db ws) = .error error) :
    alone sys db (stmt :: rest) vars ws = .error error := by
  simp only [alone, h]

omit [DecidableEq κ] in
theorem alone_cons_ok {r : ℓ × List ω} : alone sys db (stmt :: rest) vars ws = .ok r ↔
      ∃ vars' more, stmt.exec vars (view sys db ws) = .ok (vars', more) ∧
        alone sys db rest vars' (ws ++ more) = .ok r := by
  simp only [alone]
  cases stmt.exec vars (view sys db ws) with
  | ok x => cases x; simp
  | error error => simp

omit [DecidableEq κ] in
theorem alone_cons_error {error : ε} : alone sys db (stmt :: rest) vars ws = .error error ↔
      stmt.exec vars (view sys db ws) = .error error ∨
      ∃ vars' more, stmt.exec vars (view sys db ws) = .ok (vars', more) ∧
        alone sys db rest vars' (ws ++ more) = .error error := by
  simp only [alone]
  cases stmt.exec vars (view sys db ws) with
  | ok x => cases x; simp
  | error error => simp

/-! ## Locks -/

theorem conflict_append (held held' wanted : List (κ × Mode)) :
    conflict (held ++ held') wanted = (conflict held wanted || conflict held' wanted) := by
  simp [conflict]

theorem Mode.fits_comm (m n : Mode) : m.fits n = n.fits m := by
  cases m <;> cases n <;> rfl

theorem conflict_comm (held wanted : List (κ × Mode)) :
    conflict held wanted = conflict wanted held := by
  rw [Bool.eq_iff_iff]
  simp only [conflict, List.any_eq_true, Bool.and_eq_true, beq_iff_eq, Bool.not_eq_true']
  constructor
  · rintro ⟨h, hh, w, hw, hk, hm⟩
    exact ⟨w, hw, h, hh, hk.symm, by rw [Mode.fits_comm]; exact hm⟩
  · rintro ⟨w, hw, h, hh, hk, hm⟩
    exact ⟨h, hh, w, hw, hk.symm, by rw [Mode.fits_comm]; exact hm⟩

/-- Two transactions that hold a lock, one of them exclusively, conflict. -/
theorem conflict_of_mem {held wanted : List (κ × Mode)} {k : κ} {m : Mode}
    (hheld : (k, m) ∈ held) (hwanted : (k, .exclusive) ∈ wanted) : conflict held wanted = true := by
  simp only [conflict, List.any_eq_true, Bool.and_eq_true, beq_iff_eq, Bool.not_eq_true']
  refine ⟨(k, m), hheld, (k, .exclusive), hwanted, rfl, ?_⟩
  cases m <;> rfl

/-- No two open transactions hold locks that exclude each other. -/
def LocksFit (s : World χ σ κ ℓ ω ε) : Prop :=
  ∀ i j t u, s.txs.get? i = some t → s.txs.get? j = some u → i ≠ j → conflict t.held u.held = false

theorem blocked_false {tx i : Nat} {wanted : List (κ × Mode)} {t : Tx χ σ κ ℓ ω ε}
    (h : blocked s tx wanted = false) (ht : s.txs.get? i = some t) (hne : i ≠ tx) :
    conflict t.held wanted = false := by
  simp only [blocked, List.any_eq_false, Bool.and_eq_true, bne_iff_ne, ne_eq, not_and,
    Bool.not_eq_true] at h
  exact h (i, t) ((Table.mem_toList _ _ _).mpr ht) hne

theorem Step.locksFit (h : Step sys s a s') (hs : LocksFit s) : LocksFit s' := by
  intro i j t u ht hu hne
  cases h with
  | advance micros => exact hs i j t u ht hu hne
  | begin call =>
    simp only [Table.get?_set] at ht hu
    split_ifs at ht hu with hi hj hj
    · omega
    · cases ht; rfl
    · cases hu; rw [conflict_comm]; rfl
    · exact hs i j t u ht hu hne
  | exec hopen hrest hfree hexec =>
    simp only [Table.get?_set] at ht hu
    split_ifs at ht hu with hi hj hj
    · omega
    · subst hi
      cases ht
      rw [Tx.after, conflict_append, hs _ _ _ _ hopen hu hne, conflict_comm,
        blocked_false hfree hu hj]
      rfl
    · subst hj
      cases hu
      rw [conflict_comm, Tx.after, conflict_append, hs _ _ _ _ hopen ht (Ne.symm hne),
        conflict_comm, blocked_false hfree ht hi]
      rfl
    · exact hs i j t u ht hu hne
  | commit hopen hrest =>
    simp only [Table.get?_remove] at ht hu
    split_ifs at ht hu with hi hj
    exact hs i j t u ht hu hne
  | refuse hopen hrest hexec =>
    simp only [Table.get?_remove] at ht hu
    split_ifs at ht hu with hi hj
    exact hs i j t u ht hu hne
  | fail error hopen =>
    simp only [Table.get?_remove] at ht hu
    split_ifs at ht hu with hi hj
    exact hs i j t u ht hu hne

/-! ## Runs that keep to a condition -/

/-- Which statements and which commits a run may take. -/
structure Guard (χ σ κ ℓ ω ε : Type*) where
  exec : Public χ σ ℓ ε → Tx χ σ κ ℓ ω ε → Prop
  commit : Public χ σ ℓ ε → Tx χ σ κ ℓ ω ε → Prop

def Guard.any : Guard χ σ κ ℓ ω ε := ⟨fun _ _ => True, fun _ _ => True⟩

def Guard.allows (g : Guard χ σ κ ℓ ω ε) (s : World χ σ κ ℓ ω ε) : Action χ ε → Prop
  | .exec tx => ∀ t ∈ s.txs.get? tx, g.exec s.pub t
  | .commit tx => ∀ t ∈ s.txs.get? tx, g.commit s.pub t
  | _ => True

instance Guard.decidableAllows (g : Guard χ σ κ ℓ ω ε) [∀ p t, Decidable (g.exec p t)]
    [∀ p t, Decidable (g.commit p t)] (s : World χ σ κ ℓ ω ε) :
    ∀ a : Action χ ε, Decidable (g.allows s a)
  | .exec tx => inferInstanceAs (Decidable (∀ t ∈ s.txs.get? tx, g.exec s.pub t))
  | .commit tx => inferInstanceAs (Decidable (∀ t ∈ s.txs.get? tx, g.commit s.pub t))
  | .advance _ | .begin _ | .fail _ _ => isTrue trivial

omit [DecidableEq κ] in
theorem Guard.any_allows (s : World χ σ κ ℓ ω ε) (a : Action χ ε) :
    (Guard.any : Guard χ σ κ ℓ ω ε).allows s a := by
  cases a <;> first | trivial | exact fun _ _ => trivial

/-! ## The proof rule -/

/-- An invariant of the public state and a condition of each open transaction that hold together
through every step that the guard allows. -/
structure Rule (sys : System χ σ κ ℓ ω ε) (g : Guard χ σ κ ℓ ω ε) (inv : Public χ σ ℓ ε → Prop)
    (own : Public χ σ ℓ ε → Tx χ σ κ ℓ ω ε → Prop) : Prop where
  advance : ∀ p micros, inv p → inv (p.advance micros)
  refuse : ∀ p call error, inv p → inv (p.refuse call error)
  commit : ∀ p t, inv p → own p t → t.rest = [] → g.commit p t → inv (p.commit sys t)
  begin : ∀ p call, inv p → own p (fresh sys call p.clock)
  exec : ∀ p t stmt rest vars writes, inv p → own p t → t.rest = stmt :: rest → g.exec p t →
    stmt.exec t.vars (view sys p.db t.writes) = .ok (vars, writes) →
    own p (t.after rest (stmt.locks t.vars (view sys p.db t.writes)) vars writes)
  ownAdvance : ∀ p t micros, own p t → own (p.advance micros) t
  ownRefuse : ∀ p t call error, own p t → own (p.refuse call error) t
  /-- A commit of another transaction, whose locks fit, keeps the condition. -/
  ownCommit : ∀ p t u, inv p → own p t → own p u → t.rest = [] → conflict t.held u.held = false →
    g.commit p t → own (p.commit sys t) u

structure Kept (inv : Public χ σ ℓ ε → Prop) (own : Public χ σ ℓ ε → Tx χ σ κ ℓ ω ε → Prop)
    (s : World χ σ κ ℓ ω ε) : Prop where
  inv : inv s.pub
  own : ∀ i t, s.txs.get? i = some t → own s.pub t
  locks : LocksFit s

variable {g : Guard χ σ κ ℓ ω ε} {inv : Public χ σ ℓ ε → Prop}
  {own : Public χ σ ℓ ε → Tx χ σ κ ℓ ω ε → Prop}

theorem Step.kept (rule : Rule sys g inv own) (h : Step sys s a s') (hallowed : g.allows s a)
    (hs : Kept inv own s) : Kept inv own s' := by
  refine ⟨?_, ?_, h.locksFit hs.locks⟩
  · cases h with
    | advance micros => exact rule.advance _ _ hs.inv
    | begin call => exact hs.inv
    | exec hopen hrest hfree hexec => exact hs.inv
    | commit hopen hrest =>
      exact rule.commit _ _ hs.inv (hs.own _ _ hopen) hrest (hallowed _ hopen)
    | refuse hopen hrest hexec => exact rule.refuse _ _ _ hs.inv
    | fail error hopen => exact rule.refuse _ _ _ hs.inv
  · intro i u hu
    cases h with
    | advance micros => exact rule.ownAdvance _ _ _ (hs.own i u hu)
    | begin call =>
      simp only [Table.get?_set] at hu
      split_ifs at hu with hi
      · cases hu; exact rule.begin _ _ hs.inv
      · exact hs.own i u hu
    | exec hopen hrest hfree hexec =>
      simp only [Table.get?_set] at hu
      split_ifs at hu with hi
      · cases hu
        exact rule.exec _ _ _ _ _ _ hs.inv (hs.own _ _ hopen) hrest (hallowed _ hopen) hexec
      · exact hs.own i u hu
    | commit hopen hrest =>
      simp only [Table.get?_remove] at hu
      split_ifs at hu with hi
      exact rule.ownCommit _ _ _ hs.inv (hs.own _ _ hopen) (hs.own _ _ hu) hrest
        (hs.locks _ _ _ _ hopen hu (Ne.symm hi)) (hallowed _ hopen)
    | refuse hopen hrest hexec =>
      simp only [Table.get?_remove] at hu
      split_ifs at hu with hi
      exact rule.ownRefuse _ _ _ _ (hs.own _ _ hu)
    | fail error hopen =>
      simp only [Table.get?_remove] at hu
      split_ifs at hu with hi
      exact rule.ownRefuse _ _ _ _ (hs.own _ _ hu)

theorem kept_init (clock : Int) (h : inv ⟨clock, db, []⟩) :
    Kept inv own (World.init clock db : World χ σ κ ℓ ω ε) := by
  refine ⟨h, ?_, ?_⟩
  · intro i t ht; cases ht
  · intro i j t u ht; cases ht

/-- What a rule proves holds in every state of every run whose steps are allowed. -/
theorem run_keeps_of_meets (rule : Rule sys g inv own) {as : List (Action χ ε)}
    (hs : Kept inv own s) (hmeets : Meets (step sys) g.allows s as)
    (hrun : run (step sys) s as = some s') : Kept inv own s' :=
  run_invariant_of_meets (Kept inv own)
    (fun _ _ _ h hallowed hstep => (step_cases hstep).kept rule hallowed h) hs hmeets hrun

theorem run_keeps (rule : Rule sys .any inv own) {as : List (Action χ ε)} (hs : Kept inv own s)
    (hrun : run (step sys) s as = some s') : Kept inv own s' :=
  run_invariant (Kept inv own)
    (fun s a _ h hstep => (step_cases hstep).kept rule (Guard.any_allows s a) h) hs hrun

end Transactions
