import Mathlib.Data.List.MinMax
import Mathlib.Data.Prod.Lex
import Mathlib.Data.String.Basic
import Vingilot.Core

/-!
# The head of a slug's events

`select_head` is a fold over the events as they come. The order behind it ranks an event the lower
the newer it is, and by its id among events of one second.
-/

namespace Vingilot.Engram

def u64Max : Nat := 2 ^ 64 - 1

/-- The step of `select_head`. -/
def newerOf (a b : Event) : Event :=
  if a.createdAt < b.createdAt then b
  else if b.createdAt < a.createdAt then a
  else if b.id < a.id then b
  else a

/-- `Iterator::reduce`. -/
def selectHead : List Event → Option Event
  | [] => none
  | e :: events => some (events.foldl newerOf e)

def monotonicCreatedAt (now : Nat) : Option Nat → Nat
  | some t => max now (min (t + 1) u64Max)
  | none => now

/-! ## The order of the events -/

def rank (e : Event) : Lex (Natᵒᵈ × String) := toLex (OrderDual.toDual e.createdAt, e.id)

variable {a b : Event}

theorem rank_lt_rank :
    rank a < rank b ↔ b.createdAt < a.createdAt ∨ a.createdAt = b.createdAt ∧ a.id < b.id := by
  unfold rank
  rw [Prod.Lex.toLex_lt_toLex]
  simp

theorem rank_le_rank :
    rank a ≤ rank b ↔ b.createdAt < a.createdAt ∨ a.createdAt = b.createdAt ∧ a.id ≤ b.id := by
  unfold rank
  rw [Prod.Lex.toLex_le_toLex]
  simp

theorem rank_inj : rank a = rank b ↔ a.createdAt = b.createdAt ∧ a.id = b.id := by
  unfold rank
  simp

theorem newerOf_eq (a b : Event) : newerOf a b = if rank b < rank a then b else a := by
  unfold newerOf
  simp only [rank_lt_rank]
  rcases Nat.lt_trichotomy a.createdAt b.createdAt with h | h | h
  · simp [h]
  · simp [h]
  · simp [h, Nat.lt_asymm h, Nat.ne_of_lt h]

theorem selectHead_eq_argmin (events : List Event) : selectHead events = events.argmin rank := by
  rcases events with _ | ⟨e, events⟩
  · rfl
  · unfold selectHead List.argmin
    change some (events.foldl newerOf e) = events.foldl _ (some e)
    induction events generalizing e with
    | nil => rfl
    | cons b events ih =>
      rw [List.foldl_cons, List.foldl_cons, ih, newerOf_eq]
      unfold List.argAux
      dsimp only
      split_ifs <;> rfl

/-- The event is one of the least rank: no other is newer, and none of its second has a smaller
id. -/
def IsHead (events : List Event) (e : Event) : Prop :=
  e ∈ events ∧ ∀ a ∈ events, a.createdAt < e.createdAt ∨ e.createdAt = a.createdAt ∧ e.id ≤ a.id

variable {events : List Event}

theorem isHead_of_selectHead {e : Event} (h : selectHead events = some e) : IsHead events e := by
  rw [selectHead_eq_argmin] at h
  refine ⟨List.argmin_mem h, fun a ha => ?_⟩
  exact rank_le_rank.mp (List.le_of_mem_argmin ha h)

theorem selectHead_eq_none : selectHead events = none ↔ events = [] := by
  rw [selectHead_eq_argmin, List.argmin_eq_none]

theorem IsHead.rank_eq (ha : IsHead events a) (hb : IsHead events b) : rank a = rank b := by
  apply le_antisymm
  · exact rank_le_rank.mpr (ha.2 b hb.1)
  · exact rank_le_rank.mpr (hb.2 a ha.1)

theorem IsHead.perm {events' : List Event} {e : Event} (hperm : events.Perm events')
    (h : IsHead events e) : IsHead events' e :=
  ⟨hperm.mem_iff.mp h.1, fun a ha => h.2 a (hperm.mem_iff.mpr ha)⟩

theorem rank_selectHead_perm {events' : List Event} (hperm : events.Perm events') :
    (selectHead events).map rank = (selectHead events').map rank := by
  cases h : selectHead events with
  | none =>
    rw [selectHead_eq_none] at h
    subst h
    rw [List.nil_perm.mp hperm]
    rfl
  | some e =>
    cases h' : selectHead events' with
    | none =>
      rw [selectHead_eq_none] at h'
      subst h'
      rw [List.perm_nil.mp hperm] at h
      simp [selectHead] at h
    | some e' =>
      have hrank := ((isHead_of_selectHead h).perm hperm).rank_eq (isHead_of_selectHead h')
      simp [hrank]

/-! ## A new version -/

theorem lt_monotonicCreatedAt {now t : Nat} (ht : t < u64Max) :
    t < monotonicCreatedAt now (some t) := by
  simp only [monotonicCreatedAt]
  omega

theorem selectHead_newest {all : List Event} {head new : Event} (hhead : IsHead events head)
    (hnew : head.createdAt < new.createdAt) (hall : all.Perm (new :: events)) :
    selectHead all = some new := by
  have hmem : new ∈ all := hall.mem_iff.mpr (List.mem_cons_self)
  cases h : selectHead all with
  | none =>
    rw [selectHead_eq_none] at h
    simp [h] at hmem
  | some e =>
    obtain ⟨he, hleast⟩ := isHead_of_selectHead h
    rcases List.mem_cons.mp (hall.mem_iff.mp he) with rfl | hold
    · rfl
    · have hbefore := hhead.2 e hold
      have hafter := hleast new hmem
      omega

def IdsDetermine (events : List Event) : Prop :=
  ∀ a ∈ events, ∀ b ∈ events, a.id = b.id → a = b

/-- The head does not depend on the order of the events, and a version that is stamped after it
supersedes all of them. -/
theorem head_supersedes {events events' : List Event} (hperm : events.Perm events') :
    (selectHead events).map rank = (selectHead events').map rank ∧
      (IdsDetermine events → selectHead events = selectHead events') ∧
      ∀ head, selectHead events = some head → IsHead events head ∧
        ∀ (now : Nat) (new : Event) (all : List Event), head.createdAt < u64Max →
          new.createdAt = monotonicCreatedAt now (some head.createdAt) →
          all.Perm (new :: events) → selectHead all = some new := by
  refine ⟨rank_selectHead_perm hperm, fun hids => ?_, fun head hhead => ?_⟩
  · have hrank := rank_selectHead_perm hperm
    cases h : selectHead events with
    | none =>
      rw [h, Option.map_none, eq_comm, Option.map_eq_none_iff] at hrank
      exact hrank.symm
    | some e =>
      rw [h] at hrank
      obtain ⟨e', h', heq⟩ := Option.map_eq_some_iff.mp hrank.symm
      have he := (isHead_of_selectHead h).1
      have he' := hperm.mem_iff.mpr (isHead_of_selectHead h').1
      rw [h', hids e he e' he' (rank_inj.mp heq).2.symm]
  · have hisHead := isHead_of_selectHead hhead
    refine ⟨hisHead, fun now new all hmax hstamp hall => ?_⟩
    apply selectHead_newest hisHead _ hall
    rw [hstamp]
    exact lt_monotonicCreatedAt hmax

def versionAt (id : String) (createdAt : Nat) : Event := ⟨id, "", createdAt, 30174, []⟩

theorem head_supersedes_tie :
    selectHead [versionAt "aa" 6, versionAt "b" 5, versionAt "a" 5] = some (versionAt "aa" 6) := by
  have hall := (head_supersedes (List.Perm.refl [versionAt "b" 5, versionAt "a" 5])).2.2
    (versionAt "a" 5) (by decide)
  exact hall.2 3 (versionAt "aa" 6) _ (by decide) (by decide) (List.Perm.refl _)

end Vingilot.Engram
