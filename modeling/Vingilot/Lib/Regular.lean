import Mathlib.Computability.RegularExpressions

/-!
# Regular expressions for grammars

Mathlib's regular expressions with the classes of letters, the bounded repetitions and the
separated lists that grammars are written with.
-/

namespace RegularExpression

variable {α : Type*}

variable {r s : RegularExpression α} {w : List α}

theorem mem_mul : w ∈ (r * s).matches' ↔ ∃ a ∈ r.matches', ∃ b ∈ s.matches', a ++ b = w :=
  Language.mem_mul

theorem mem_add : w ∈ (r + s).matches' ↔ w ∈ r.matches' ∨ w ∈ s.matches' := Iff.rfl

theorem mem_star :
    w ∈ r.star.matches' ↔ ∃ parts : List (List α), w = parts.flatten ∧ ∀ p ∈ parts, p ∈ r.matches' :=
  Iff.rfl

theorem mem_one : w ∈ (1 : RegularExpression α).matches' ↔ w = [] := Iff.rfl

theorem mem_char {a : α} : w ∈ (char a).matches' ↔ w = [a] := Iff.rfl

/-! ## Words -/

/-- One given word. -/
def word (w : List α) : RegularExpression α := w.foldr (fun a r => char a * r) 1

theorem mem_word {v : List α} : v ∈ (word w).matches' ↔ v = w := by
  induction w generalizing v with
  | nil => exact mem_one
  | cons a w ih =>
    change v ∈ (char a * word w).matches' ↔ _
    rw [mem_mul]
    constructor
    · rintro ⟨x, hx, y, hy, rfl⟩
      rw [mem_char.mp hx, ih.mp hy]
      rfl
    · rintro rfl
      exact ⟨[a], mem_char.mpr rfl, w, ih.mpr rfl, rfl⟩

/-! ## Letters -/

/-- The expression matches the words of one letter of a class. -/
def Letters (r : RegularExpression α) (p : α → Prop) : Prop :=
  ∀ w, w ∈ r.matches' ↔ ∃ a, p a ∧ w = [a]

theorem letters_char (a : α) : Letters (char a) (· = a) := by
  intro w
  rw [mem_char]
  simp

theorem Letters.add {p q : α → Prop} (hr : Letters r p) (hs : Letters s q) :
    Letters (r + s) fun a => p a ∨ q a := by
  intro w
  rw [mem_add, hr w, hs w]
  simp only [or_and_right, exists_or]

/-- One of the given letters. -/
def oneOf (letters : List α) : RegularExpression α := letters.foldr (fun a r => char a + r) 0

theorem letters_oneOf (letters : List α) : Letters (oneOf letters) (· ∈ letters) := by
  induction letters with
  | nil =>
    intro w
    refine iff_of_false (fun h => h) ?_
    simp
  | cons a letters ih =>
    intro w
    change w ∈ (char a + oneOf letters).matches' ↔ _
    rw [(letters_char a).add ih w]
    simp only [List.mem_cons]

/-! ## Repetitions -/

/-- `r{0,n}`. -/
def upTo (r : RegularExpression α) : Nat → RegularExpression α
  | 0 => 1
  | n + 1 => 1 + r * upTo r n

theorem mem_upTo {p : α → Prop} (hr : Letters r p) {n : Nat} :
    w ∈ (upTo r n).matches' ↔ w.length ≤ n ∧ ∀ a ∈ w, p a := by
  induction n generalizing w with
  | zero =>
    unfold upTo
    rw [mem_one]
    constructor
    · rintro rfl
      simp
    · rintro ⟨hlength, -⟩
      exact List.eq_nil_of_length_eq_zero (by omega)
  | succ n ih =>
    unfold upTo
    rw [mem_add, mem_one, mem_mul]
    constructor
    · rintro (rfl | ⟨x, hx, y, hy, rfl⟩)
      · simp
      · obtain ⟨a, ha, rfl⟩ := (hr x).mp hx
        obtain ⟨hlength, hall⟩ := ih.mp hy
        refine ⟨by simpa using hlength, ?_⟩
        simpa [ha] using hall
    · rintro ⟨hlength, hall⟩
      rcases w with _ | ⟨a, w⟩
      · exact Or.inl rfl
      · refine Or.inr ⟨[a], (hr _).mpr ⟨a, hall a (by simp), rfl⟩, w, ih.mpr ⟨?_, ?_⟩, rfl⟩
        · simpa using hlength
        · intro b hb
          exact hall b (List.mem_cons_of_mem _ hb)

/-- `r(sep r)*`. -/
def separated (r : RegularExpression α) (sep : α) : RegularExpression α := r * (char sep * r).star

theorem intercalate_cons_eq (sep : α) (part : List α) (parts : List (List α)) :
    [sep].intercalate (part :: parts) = part ++ (parts.map fun p => sep :: p).flatten := by
  induction parts generalizing part with
  | nil => simp
  | cons next parts ih =>
    rw [List.intercalate_cons_cons, ih]
    simp

theorem mem_separated {sep : α} : w ∈ (separated r sep).matches' ↔
      ∃ parts : List (List α), parts ≠ [] ∧ w = [sep].intercalate parts ∧
        ∀ p ∈ parts, p ∈ r.matches' := by
  unfold separated
  rw [mem_mul]
  constructor
  · rintro ⟨x, hx, y, hy, rfl⟩
    obtain ⟨tails, rfl, htails⟩ := mem_star.mp hy
    have hparts : ∃ parts : List (List α), tails = parts.map (fun p => sep :: p) ∧
        ∀ p ∈ parts, p ∈ r.matches' := by
      clear hy
      induction tails with
      | nil => exact ⟨[], rfl, by simp⟩
      | cons tail tails ih =>
        obtain ⟨parts, rfl, hparts⟩ := ih fun p hp => htails p (List.mem_cons_of_mem _ hp)
        obtain ⟨s, hs, p, hp, rfl⟩ := mem_mul.mp (htails tail (List.mem_cons_self))
        rw [mem_char.mp hs]
        refine ⟨p :: parts, rfl, ?_⟩
        intro q hq
        rcases List.mem_cons.mp hq with rfl | hq
        · exact hp
        · exact hparts q hq
    obtain ⟨parts, rfl, hparts⟩ := hparts
    refine ⟨x :: parts, by simp, (intercalate_cons_eq sep x parts).symm, ?_⟩
    intro q hq
    rcases List.mem_cons.mp hq with rfl | hq
    · exact hx
    · exact hparts q hq
  · rintro ⟨parts, hne, rfl, hparts⟩
    rcases parts with _ | ⟨x, parts⟩
    · exact absurd rfl hne
    · refine ⟨x, hparts x (by simp), _, mem_star.mpr ⟨parts.map fun p => sep :: p, rfl, ?_⟩,
        (intercalate_cons_eq sep x parts).symm⟩
      intro q hq
      obtain ⟨p, hp, rfl⟩ := List.mem_map.mp hq
      exact mem_mul.mpr ⟨[sep], mem_char.mpr rfl, p, hparts p (List.mem_cons_of_mem _ hp), rfl⟩

end RegularExpression
