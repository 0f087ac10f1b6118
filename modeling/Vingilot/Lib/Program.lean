import Mathlib.Tactic.SplitIfs

/-!
# Programs that call operations

A program is a tree: it returns, or it calls an operation and goes on with the reply.
What an operation does is left to a handler, so one program can be run in one go or
one call at a time among others.
-/

inductive Program (Op : Type) (Reply : Op → Type) (α : Type) where
  | ret (a : α)
  | call (op : Op) (k : Reply op → Program Op Reply α)

namespace Program

variable {Op : Type} {Reply : Op → Type} {α β σ ε : Type}

def bind : Program Op Reply α → (α → Program Op Reply β) → Program Op Reply β
  | ret a, f => f a
  | call op k, f => call op fun r => bind (k r) f

instance : Monad (Program Op Reply) where
  pure := ret
  bind := bind

@[simp]
theorem call_bind (op : Op) (k : Reply op → Program Op Reply α) (f : α → Program Op Reply β) :
    (call op k >>= f) = call op fun r => k r >>= f := rfl

/-! ## Running in one go -/

def exec (handle : σ → (op : Op) → Reply op × σ) : σ → Program Op Reply α → α × σ
  | s, ret a => (a, s)
  | s, call op k => exec handle (handle s op).2 (k (handle s op).1)

variable {handle : σ → (op : Op) → Reply op × σ}

@[simp]
theorem exec_call (s : σ) (op : Op) (k : Reply op → Program Op Reply α) :
    exec handle s (call op k) = exec handle (handle s op).2 (k (handle s op).1) := rfl

theorem exec_bind (s : σ) (p : Program Op Reply α) (f : α → Program Op Reply β) :
    exec handle s (p >>= f) = exec handle (exec handle s p).2 (f (exec handle s p).1) := by
  induction p generalizing s with
  | ret a => rfl
  | call op k ih => exact ih _ _

/-- What every call keeps, the whole program keeps. -/
theorem exec_invariant (inv : σ → Prop) (hcall : ∀ s op, inv s → inv (handle s op).2) (s : σ)
    (p : Program Op Reply α) (h : inv s) : inv (exec handle s p).2 := by
  induction p generalizing s with
  | ret a => exact h
  | call op k ih => exact ih _ _ (hcall s op h)

/-! ## What a program may call -/

/-- Whatever the replies are: at the first call that `stop` picks out `next` holds, and a run
without such a call returns a value with `post`. -/
def Before (stop : Op → Bool) (next : (op : Op) → (Reply op → Program Op Reply α) → Prop)
    (post : α → Prop) : Program Op Reply α → Prop
  | ret a => post a
  | call op k => if stop op then next op k else ∀ r, Before stop next post (k r)

/-- No call is one that `stop` picks out. -/
def Never (stop : Op → Bool) (post : α → Prop) (p : Program Op Reply α) : Prop :=
  Before stop (fun _ _ => False) post p

variable {stop : Op → Bool} {next : (op : Op) → (Reply op → Program Op Reply β) → Prop}

/-- The continuation `f` is run after whatever the first program still has to do. -/
theorem before_bind {post' : α → Prop} {post : β → Prop}
    {next' : (op : Op) → (Reply op → Program Op Reply α) → Prop} {p : Program Op Reply α}
    {f : α → Program Op Reply β} (hp : Before stop next' post' p)
    (hnext : ∀ op k, next' op k → next op fun r => k r >>= f)
    (hf : ∀ a, post' a → Before stop next post (f a)) : Before stop next post (p >>= f) := by
  induction p with
  | ret a => exact hf a hp
  | call op k ih =>
    simp only [Before] at hp
    simp only [call_bind, Before]
    split_ifs at hp ⊢ with hstop
    · exact hnext op k hp
    · exact fun r => ih r (hp r)

theorem never_mono {post post' : α → Prop} {p : Program Op Reply α} (hp : Never stop post p)
    (h : ∀ a, post a → post' a) : Never stop post' p := by
  induction p with
  | ret a => exact h a hp
  | call op k ih =>
    simp only [Never, Before] at hp ⊢
    split_ifs at hp ⊢ with hstop
    exact fun r => ih r (hp r)

/-- No call is one that `stop` picks out, and nothing is said about the result. -/
def Avoids (stop : Op → Bool) (p : Program Op Reply α) : Prop := Never stop (fun _ => True) p

theorem avoids_ret (a : α) : Avoids stop (ret a : Program Op Reply α) := trivial

theorem avoids_bind {p : Program Op Reply α} {f : α → Program Op Reply β} (hp : Avoids stop p)
    (hf : ∀ a, Avoids stop (f a)) : Avoids stop (p >>= f) :=
  before_bind hp (fun _ _ h => h) fun a _ => hf a

theorem avoids_mono {stop' : Op → Bool} {p : Program Op Reply α} (hp : Avoids stop p)
    (h : ∀ op, stop op = false → stop' op = false) : Avoids stop' p := by
  induction p with
  | ret a => trivial
  | call op k ih =>
    simp only [Avoids, Never, Before] at hp ⊢
    split_ifs at hp with hstop
    rw [if_neg (by simp [h op (by simpa using hstop)])]
    exact fun r => ih r (hp r)

variable {s : σ}

/-- What every call but those that `stop` picks out keeps, a program without these keeps. -/
theorem exec_avoids (inv : σ → Prop) (hcall : ∀ s op, stop op = false → inv s → inv (handle s op).2)
    {p : Program Op Reply α} (hp : Avoids stop p) (h : inv s) : inv (exec handle s p).2 := by
  induction p generalizing s with
  | ret a => exact h
  | call op k ih =>
    simp only [Avoids, Never, Before] at hp
    split_ifs at hp with hstop
    exact ih _ (hp _) (hcall s op (by simpa using hstop) h)

/-! ## Programs that can fail -/

theorem exceptBind_ok {x : Except ε α} {f : α → Except ε β} {b : β} :
    (x >>= f) = .ok b ↔ ∃ a, x = .ok a ∧ f a = .ok b := by
  cases x with
  | error e => simp [Bind.bind, Except.bind]
  | ok a => simp [Bind.bind, Except.bind]

/-- A result that needs no call. -/
def ofExcept (r : Except ε α) : ExceptT ε (Program Op Reply) α := ExceptT.mk (ret r)

/-- A program that cannot fail, among those that can. -/
def lift (p : Program Op Reply α) : ExceptT ε (Program Op Reply) α :=
  ExceptT.mk (p >>= fun a => ret (.ok a))

/-- The program with its error changed. -/
def mapError {ε' : Type} (f : ε → ε') (p : ExceptT ε (Program Op Reply) α) :
    ExceptT ε' (Program Op Reply) α :=
  ExceptT.mk (p.run >>= fun r => pure (r.mapError f))

variable {ε' : Type}

theorem exec_mapError (s : σ) (f : ε → ε') (p : ExceptT ε (Program Op Reply) α) :
    exec handle s (mapError f p) =
      ((exec handle s p).1.mapError f, (exec handle s p).2) :=
  exec_bind s p _

variable {p : ExceptT ε (Program Op Reply) α}

theorem never_mapError {f : ε → ε'} {post : Except ε' α → Prop}
    (hp : Never stop (fun r => post (r.mapError f)) p) : Never stop post (mapError f p) :=
  before_bind hp (fun _ _ h => h) fun _ h => h

theorem never_lift {p : Program Op Reply α} {post : Except ε α → Prop}
    (hp : Never stop (fun a => post (.ok a)) p) :
    Never stop post (lift p : ExceptT ε (Program Op Reply) α) :=
  before_bind hp (fun _ _ h => h) fun _ h => h

theorem exec_exceptBind (s : σ) (p : ExceptT ε (Program Op Reply) α)
    (f : α → ExceptT ε (Program Op Reply) β) :
    exec handle s (p >>= f : ExceptT ε (Program Op Reply) β) =
      match exec handle s p with
      | (.ok a, s') => exec handle s' (f a)
      | (.error e, s') => (.error e, s') := by
  have hbind : exec handle s (p >>= f : ExceptT ε (Program Op Reply) β) =
      exec handle (exec handle s p).2 (ExceptT.bindCont f (exec handle s p).1) := exec_bind s p _
  rw [hbind]
  cases h : exec handle s p with
  | mk r s' =>
    cases r with
    | ok a => rfl
    | error e => rfl

variable {f : α → ExceptT ε (Program Op Reply) β}

/-- A sequence succeeds when both parts do, one after the other. -/
theorem exec_exceptBind_ok {s'' : σ} {b : β} :
    exec handle s (p >>= f : ExceptT ε (Program Op Reply) β) = (.ok b, s'') ↔
      ∃ a s', exec handle s p = (.ok a, s') ∧ exec handle s' (f a) = (.ok b, s'') := by
  rw [exec_exceptBind]
  constructor
  · intro h
    split at h
    · next a s' heq => exact ⟨a, s', heq, h⟩
    · cases h
  · rintro ⟨a, s', hp, hf⟩
    rw [hp]
    exact hf

theorem exec_mapError_ok {s' : σ} {f : ε → ε'} {a : α} :
    exec handle s (mapError f p) = (.ok a, s') ↔ exec handle s p = (.ok a, s') := by
  rw [exec_mapError]
  rcases exec handle s p with ⟨e | b, t⟩
  · simp [Except.mapError]
  · simp [Except.mapError]

theorem exec_lift (s : σ) (p : Program Op Reply α) :
    exec handle s (lift p : ExceptT ε (Program Op Reply) α) =
      (.ok (exec handle s p).1, (exec handle s p).2) :=
  exec_bind s p _

theorem exec_ofExcept (s : σ) (r : Except ε α) :
    exec handle s (ofExcept r : ExceptT ε (Program Op Reply) α) = (r, s) := rfl

theorem exec_ofExcept_ok {s' : σ} {r : Except ε α} {a : α} :
    exec handle s (ofExcept r : ExceptT ε (Program Op Reply) α) = (.ok a, s') ↔
      r = .ok a ∧ s' = s := by
  rw [exec_ofExcept, Prod.mk.injEq, eq_comm (a := s)]

theorem exec_pure (s : σ) (a : α) :
    exec handle s (pure a : ExceptT ε (Program Op Reply) α) = (.ok a, s) := rfl

theorem exec_throw (s : σ) (e : ε) :
    exec handle s (throw e : ExceptT ε (Program Op Reply) α) = (.error e, s) := rfl

theorem before_exceptBind {good : α → Prop} {post : Except ε β → Prop}
    {next : (op : Op) → (Reply op → Program Op Reply (Except ε β)) → Prop}
    (hp : Never stop (fun r => match r with | .ok a => good a | .error e => post (.error e)) p)
    (hf : ∀ a, good a → Before stop next post (f a)) :
    Before stop next post (p >>= f : ExceptT ε (Program Op Reply) β) := by
  refine before_bind (f := ExceptT.bindCont f) hp (fun _ _ h => h.elim) ?_
  intro r hr
  cases r with
  | ok a => exact hf a hr
  | error e => exact hr

theorem avoids_exceptBind (hp : Avoids stop p) (hf : ∀ a, Avoids stop (f a)) :
    Avoids stop (p >>= f : ExceptT ε (Program Op Reply) β) := by
  refine before_exceptBind (never_mono hp ?_) fun a (_ : True) => hf a
  rintro (e | a) -
  · trivial
  · trivial

theorem avoids_pure (a : α) : Avoids stop (pure a : ExceptT ε (Program Op Reply) α) := trivial

theorem avoids_throw (e : ε) : Avoids stop (throw e : ExceptT ε (Program Op Reply) α) := trivial

theorem avoids_ofExcept (r : Except ε α) :
    Avoids stop (ofExcept r : ExceptT ε (Program Op Reply) α) := trivial

theorem avoids_mapError (f : ε → ε') (hp : Avoids stop p) :
    Avoids stop (mapError f p : ExceptT ε' (Program Op Reply) α) :=
  never_mapError (never_mono hp fun _ _ => trivial)

theorem avoids_lift {p : Program Op Reply α} (hp : Avoids stop p) :
    Avoids stop (lift p : ExceptT ε (Program Op Reply) α) :=
  never_lift (never_mono hp fun _ _ => trivial)

end Program
