import Mathlib.Algebra.Order.Ring.Int
import Mathlib.Data.List.Basic
import Mathlib.Data.List.Infix

/-!
# Codes that show where a word ends

A code gives each value a word. It delimits itself when the word at the front of any longer text is
determined by the text. Parts that do can be put one after the other and are read back one by one.
-/

namespace Codes

variable {α β γ : Type*}

def SelfDelimiting (code : α → List β) : Prop :=
  ∀ a b r s, code a ++ r = code b ++ s → a = b ∧ r = s

variable {code : α → List β}

/-- The code has no word that begins another one. -/
theorem selfDelimiting_iff : SelfDelimiting code ↔ ∀ a b, code a <+: code b → a = b := by
  constructor
  · rintro h a b ⟨r, hr⟩
    exact (h a b r [] (by rw [hr, List.append_nil])).1
  · intro h a b r s heq
    have hab : a = b := by
      rcases List.prefix_or_prefix_of_prefix (List.prefix_append (code a) r)
        (heq ▸ List.prefix_append (code b) s) with hab | hba
      · exact h a b hab
      · exact (h b a hba).symm
    subst hab
    exact ⟨rfl, List.append_cancel_left heq⟩

/-- Two texts are cut at the first separator. -/
theorem split_at_separator {sep : β} {u v r s : List β} (hu : sep ∉ u) (hv : sep ∉ v)
    (h : u ++ sep :: r = v ++ sep :: s) : u = v ∧ r = s := by
  induction u generalizing v with
  | nil =>
    cases v with
    | nil => exact ⟨rfl, (List.cons.inj h).2⟩
    | cons y v => exact absurd (by simp [(List.cons.inj h).1]) hv
  | cons x u ih =>
    cases v with
    | nil => exact absurd (by simp [← (List.cons.inj h).1]) hu
    | cons y v =>
      obtain ⟨hxy, hrest⟩ := List.cons.inj h
      obtain ⟨huv, hrs⟩ := ih (fun hmem => hu (List.mem_cons_of_mem _ hmem))
        (fun hmem => hv (List.mem_cons_of_mem _ hmem)) hrest
      exact ⟨by rw [hxy, huv], hrs⟩

namespace SelfDelimiting

theorem of_length (n : Nat) (hlength : ∀ a, (code a).length = n) (hinj : Function.Injective code) :
    SelfDelimiting code := by
  intro a b r s heq
  obtain ⟨hcode, hrest⟩ := List.append_inj heq (by rw [hlength, hlength])
  exact ⟨hinj hcode, hrest⟩

theorem flatMap_begins (h : SelfDelimiting code) (hne : ∀ a, code a ≠ []) {xs ys : List α}
    (hbegins : xs.flatMap code <+: ys.flatMap code) : xs <+: ys := by
  induction xs generalizing ys with
  | nil => exact List.nil_prefix
  | cons x xs ih =>
    obtain ⟨r, hr⟩ := hbegins
    cases ys with
    | nil =>
      simp only [List.flatMap_cons, List.flatMap_nil, List.append_assoc,
        List.append_eq_nil_iff] at hr
      exact absurd hr.1 (hne x)
    | cons y ys =>
      simp only [List.flatMap_cons, List.append_assoc] at hr
      obtain ⟨rfl, hrest⟩ := h x y _ _ hr
      exact List.cons_prefix_cons.mpr ⟨rfl, ih ⟨r, hrest⟩⟩

/-- Letter by letter, a text is read back. -/
theorem flatMap_injective (h : SelfDelimiting code) (hne : ∀ a, code a ≠ []) :
    Function.Injective fun xs : List α => xs.flatMap code := by
  intro xs ys heq
  have hxy : xs <+: ys := flatMap_begins h hne ⟨[], by rw [List.append_nil]; exact heq⟩
  have hyx : ys <+: xs := flatMap_begins h hne ⟨[], by rw [List.append_nil]; exact heq.symm⟩
  exact hxy.eq_of_length (Nat.le_antisymm hxy.length_le hyx.length_le)

/-- The letters of a word may be coded in turn. -/
theorem flatMap {letter : β → List γ} (h : SelfDelimiting code) (hletter : SelfDelimiting letter)
    (hne : ∀ b, letter b ≠ []) : SelfDelimiting fun a => (code a).flatMap letter := by
  rw [selfDelimiting_iff] at h ⊢
  intro a b hbegins
  exact h a b (flatMap_begins hletter hne hbegins)

end SelfDelimiting

/-- It is enough that a letter is read off when whole words follow it. -/
theorem flatMap_injective_of_head (hne : ∀ a, code a ≠ [])
    (hhead : ∀ a b (xs ys : List α), code a ++ xs.flatMap code = code b ++ ys.flatMap code → a = b) :
    Function.Injective fun xs : List α => xs.flatMap code := by
  intro xs ys heq
  simp only at heq
  induction xs generalizing ys with
  | nil =>
    cases ys with
    | nil => rfl
    | cons y ys =>
      rw [List.flatMap_cons, List.flatMap_nil] at heq
      exact absurd (List.append_eq_nil_iff.mp heq.symm).1 (hne y)
  | cons x xs ih =>
    cases ys with
    | nil =>
      rw [List.flatMap_cons, List.flatMap_nil] at heq
      exact absurd (List.append_eq_nil_iff.mp heq).1 (hne x)
    | cons y ys =>
      rw [List.flatMap_cons, List.flatMap_cons] at heq
      have hxy := hhead x y xs ys heq
      subst hxy
      rw [ih (List.append_cancel_left heq)]

/-! ## Cuts -/

/-- The bytes at the start of the second part of one text end the first part of the other. -/
def Moved (x y x' y' : List β) : Prop := ∃ m, m ≠ [] ∧ x' = x ++ m ∧ y = m ++ y'

/-- One text, cut at two places. -/
def Recut (x y x' y' : List β) : Prop := Moved x y x' y' ∨ Moved x' y' x y

theorem append_eq_append_iff_recut {x y x' y' : List β} :
    x ++ y = x' ++ y' ↔ (x = x' ∧ y = y') ∨ Recut x y x' y' := by
  constructor
  · intro h
    rcases List.append_eq_append_iff.mp h with ⟨m, hx, hy⟩ | ⟨m, hx, hy⟩
    · by_cases hm : m = []
      · subst hm
        exact .inl ⟨by simpa using hx.symm, by simpa using hy⟩
      · exact .inr (.inl ⟨m, hm, hx, hy⟩)
    · by_cases hm : m = []
      · subst hm
        exact .inl ⟨by simpa using hx, by simpa using hy.symm⟩
      · exact .inr (.inr ⟨m, hm, hx, hy⟩)
  · rintro (⟨rfl, rfl⟩ | ⟨m, -, rfl, rfl⟩ | ⟨m, -, rfl, rfl⟩)
    · rfl
    · rw [List.append_assoc]
    · rw [List.append_assoc]

theorem ne_of_recut {x y x' y' : List β} (h : Recut x y x' y') : x ≠ x' := by
  rcases h with ⟨m, hm, rfl, -⟩ | ⟨m, hm, rfl, -⟩
  · exact fun h => hm (List.self_eq_append_right.mp h)
  · exact fun h => hm (List.self_eq_append_right.mp h.symm)

/-- What holds of the separator and of the letters of each part holds of all letters. -/
theorem mem_of_splitOn {α : Type*} [BEq α] [LawfulBEq α] {p : α → Prop} (sep : α) {text : List α}
    (hsep : p sep) (h : ∀ part ∈ text.splitOn sep, ∀ c ∈ part, p c) : ∀ c ∈ text, p c := by
  have hjoin : ∀ parts : List (List α), (∀ part ∈ parts, ∀ c ∈ part, p c) →
      ∀ c ∈ [sep].intercalate parts, p c := by
    intro parts
    induction parts with
    | nil => simp
    | cons part parts ih =>
      intro hparts c hc
      cases parts with
      | nil => exact hparts part (by simp) c (by simpa using hc)
      | cons next parts =>
        simp only [List.intercalate_cons_cons, List.append_assoc, List.mem_append,
          List.mem_singleton] at hc
        rcases hc with hc | rfl | hc
        · exact hparts part (by simp) c hc
        · exact hsep
        · exact ih (fun part hpart => hparts part (List.mem_cons_of_mem _ hpart)) c hc
  intro c hc
  refine hjoin _ h c ?_
  rwa [List.intercalate_splitOn]

/-! ## UTF-8 -/

def utf8 (text : List Char) : List UInt8 := text.flatMap String.utf8EncodeChar

theorem selfDelimiting_utf8EncodeChar : SelfDelimiting String.utf8EncodeChar := by
  intro a b r s heq
  have hdecode : ∀ (c : Char) (t : List UInt8),
      (String.utf8EncodeChar c ++ t).toByteArray.utf8DecodeChar? 0 = some c := by
    intro c t
    rw [List.toByteArray_append]
    exact ByteArray.utf8DecodeChar?_utf8EncodeChar_append
  have hab : a = b := by
    have ha := hdecode a r
    rw [heq, hdecode b s] at ha
    exact (Option.some.inj ha).symm
  subst hab
  exact ⟨rfl, List.append_cancel_left heq⟩

theorem utf8_injective : Function.Injective utf8 :=
  selfDelimiting_utf8EncodeChar.flatMap_injective fun _ => String.utf8EncodeChar_ne_nil

theorem SelfDelimiting.utf8 {code : α → List Char} (h : SelfDelimiting code) :
    SelfDelimiting fun a => utf8 (code a) :=
  h.flatMap selfDelimiting_utf8EncodeChar fun _ => String.utf8EncodeChar_ne_nil

/-! ## Big-endian numbers -/

/-- The last `n` bytes of a number, the most significant one first. -/
def beBytes : Nat → Nat → List UInt8
  | 0, _ => []
  | n + 1, x => beBytes n (x / 256) ++ [UInt8.ofNat x]

@[simp]
theorem length_beBytes (n x : Nat) : (beBytes n x).length = n := by
  induction n generalizing x with
  | zero => rfl
  | succ n ih => simp [beBytes, ih]

theorem beBytes_inj {n x y : Nat} (hx : x < 256 ^ n) (hy : y < 256 ^ n)
    (h : beBytes n x = beBytes n y) : x = y := by
  induction n generalizing x y with
  | zero =>
    rw [pow_zero] at hx hy
    omega
  | succ n ih =>
    obtain ⟨hhigh, hlow⟩ := List.append_inj' h rfl
    rw [pow_succ] at hx hy
    have hquot := ih (by omega) (by omega) hhigh
    have hrem : x % 256 = y % 256 := by
      have hbyte := congrArg UInt8.toNat (List.cons.inj hlow).1
      simpa using hbyte
    omega

/-! ## Little-endian numbers -/

/-- The last `n` bytes of a number, the least significant one first. -/
def leBytes (n x : Nat) : List UInt8 := (beBytes n x).reverse

@[simp]
theorem length_leBytes (n x : Nat) : (leBytes n x).length = n := by
  rw [leBytes, List.length_reverse, length_beBytes]

theorem leBytes_inj {n x y : Nat} (hx : x < 256 ^ n) (hy : y < 256 ^ n)
    (h : leBytes n x = leBytes n y) : x = y :=
  beBytes_inj hx hy (List.reverse_injective h)

/-! ## Words that end with a separator -/

section Terminated

variable [DecidableEq β] {sep : β}

/-- Each word and the separator after it. A word may hold separators of its own. -/
def terminated (sep : β) (words : List (List β)) : List β := words.flatMap fun word => word ++ [sep]

theorem cut_of_count_eq {u v r s : List β} (hcount : u.count sep = v.count sep)
    (h : u ++ sep :: r = v ++ sep :: s) : u = v ∧ r = s := by
  induction u generalizing v with
  | nil =>
    cases v with
    | nil => exact ⟨rfl, (List.cons.inj h).2⟩
    | cons y v => simp [← (List.cons.inj h).1] at hcount
  | cons x u ih =>
    cases v with
    | nil => simp [(List.cons.inj h).1] at hcount
    | cons y v =>
      obtain ⟨rfl, hrest⟩ := List.cons.inj h
      obtain ⟨rfl, hrs⟩ := ih (by simpa [List.count_cons] using hcount) hrest
      exact ⟨rfl, hrs⟩

/-- A text is cut back into words by how many separators each word has of its own. -/
theorem terminated_inj {us vs : List (List β)} (hcount : us.map (·.count sep) = vs.map (·.count sep))
    (h : terminated sep us = terminated sep vs) : us = vs := by
  induction us generalizing vs with
  | nil =>
    cases vs with
    | nil => rfl
    | cons v vs => cases hcount
  | cons u us ih =>
    cases vs with
    | nil => cases hcount
    | cons v vs =>
      obtain ⟨hword, hwords⟩ := List.cons.inj hcount
      simp only [terminated, List.flatMap_cons, List.append_assoc, List.singleton_append] at h
      obtain ⟨rfl, hrest⟩ := cut_of_count_eq hword h
      rw [ih hwords hrest]

theorem count_terminated (words : List (List β)) :
    (terminated sep words).count sep = (words.map (·.count sep)).sum + words.length := by
  induction words with
  | nil => rfl
  | cons word words ih =>
    have hcons : terminated sep (word :: words) = word ++ sep :: terminated sep words := by
      simp [terminated]
    rw [hcons, List.count_append, List.count_cons_self, ih]
    simp only [List.map_cons, List.sum_cons, List.length_cons]
    omega

/-- As many words in the same text: if those of one list have no separators, nor do the others. -/
theorem terminated_inj_of_free {us vs : List (List β)} (hfree : ∀ u ∈ us, sep ∉ u)
    (hlength : us.length = vs.length) (h : terminated sep us = terminated sep vs) : us = vs := by
  have hus : us.map (·.count sep) = List.replicate us.length 0 :=
    List.eq_replicate_iff.mpr ⟨by simp, by simpa [List.count_eq_zero] using hfree⟩
  have hsum : (vs.map (·.count sep)).sum = 0 := by
    have hcounts := congrArg (List.count sep) h
    rw [count_terminated, count_terminated, hus, List.sum_replicate_nat, hlength] at hcounts
    simpa using hcounts.symm
  have hvs : vs.map (·.count sep) = List.replicate vs.length 0 := by
    rw [List.sum_eq_zero_iff_forall_eq_nat] at hsum
    exact List.eq_replicate_iff.mpr ⟨by simp, hsum⟩
  exact terminated_inj (by rw [hus, hvs, hlength]) h

end Terminated

end Codes
