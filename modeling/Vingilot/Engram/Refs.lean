import Vingilot.Engram.Slugs
import Vingilot.Lib.Collections
import Vingilot.Lib.Search

/-!
# References between engrams

`extract_refs` scans a text for `[[slug]]`. It takes brackets two by two from the left, so it finds
a slug just when an even number of opening brackets stands right before it.
-/

namespace Vingilot.Engram

open Search

def openBracket : UInt8 := byte '['
def closeBracket : UInt8 := byte ']'

/-! ## The scan -/

/-- The inner loop, from behind `[[` on: the bytes before the first `]]` and those behind it.
`none` when another `[[` comes first or the text ends. -/
def closeRef : Bytes → Option (Bytes × Bytes)
  | a :: b :: rest =>
    if a = openBracket ∧ b = openBracket then none
    else if a = closeBracket ∧ b = closeBracket then some ([], rest)
    else (closeRef (b :: rest)).map fun (candidate, rest) => (a :: candidate, rest)
  | _ => none

/-- The outer loop on the bytes from `i` on. Each round takes one of them at least, so their number
is fuel enough. -/
def scanRefs : Nat → Bytes → List Bytes → List Bytes
  | fuel + 1, a :: b :: rest, out =>
    -- `i + 3 < bytes.len()`
    if rest.length < 2 then out
    else if a = openBracket ∧ b = openBracket then
      match closeRef rest with
      | some (candidate, behind) =>
        scanRefs fuel behind (if IsSlug candidate then pushNew out candidate else out)
      | none => scanRefs fuel rest out
    else scanRefs fuel (b :: rest) out
  | _, _, out => out

def extractRefs (body : Bytes) : List Bytes := scanRefs body.length body []

/-! ## What it should find -/

/-- `[[slug]]`. -/
def reference (slug : Bytes) : Bytes :=
  openBracket :: openBracket :: slug ++ [closeBracket, closeBracket]

def openRun (text : Bytes) : Nat := (text.reverse.takeWhile (· = openBracket)).length

/-- The text holds `[[slug]]` at the offset, and an even number of opening brackets ends there. -/
def RefersAt (body slug : Bytes) (p : Nat) : Prop :=
  IsSlug slug ∧ OccursAt body (reference slug) p ∧ Even (openRun (body.take (p + 2)))

/-! ## The references one by one -/

def refHere (run : Nat) (text : Bytes) : List Bytes :=
  if 2 ≤ run ∧ Even run then
    match closeRef text with
    | some (candidate, _) => if IsSlug candidate then [candidate] else []
    | none => []
  else []

def refs (run : Nat) : Bytes → List Bytes
  | [] => []
  | c :: rest =>
    if c = openBracket then refs (run + 1) rest else refHere run (c :: rest) ++ refs 0 rest

/-- The same with the offsets of their `[[`, for a text that starts at the offset `start`. -/
def refsFrom (start run : Nat) : Bytes → List (Nat × Bytes)
  | [] => []
  | c :: rest =>
    if c = openBracket then refsFrom (start + 1) (run + 1) rest
    else (refHere run (c :: rest)).map (start - 2, ·) ++ refsFrom (start + 1) 0 rest

theorem map_refsFrom (start run : Nat) (text : Bytes) :
    (refsFrom start run text).map Prod.snd = refs run text := by
  induction text generalizing start run with
  | nil => rfl
  | cons c rest ih =>
    unfold refsFrom refs
    split_ifs
    · exact ih _ _
    · rw [List.map_append, ih]
      simp

@[simp] theorem refHere_zero (text : Bytes) : refHere 0 text = [] := by
  unfold refHere
  simp

variable {run : Nat}

theorem refHere_odd (hodd : ¬ Even run) (text : Bytes) : refHere run text = [] := by
  unfold refHere
  simp [hodd]

variable {text slug : Bytes}

theorem mem_refHere : slug ∈ refHere run text ↔
      2 ≤ run ∧ Even run ∧ IsSlug slug ∧ ∃ behind, closeRef text = some (slug, behind) := by
  unfold refHere
  split_ifs with hrun
  · rw [← and_assoc, and_iff_right hrun]
    split
    · rename_i candidate behind hclose
      rw [hclose]
      split_ifs with hslug
      · constructor
        · intro h
          rw [List.mem_singleton] at h
          exact ⟨h ▸ hslug, behind, by rw [h]⟩
        · rintro ⟨-, behind', h⟩
          cases h
          exact List.mem_singleton_self _
      · refine iff_of_false (by simp) ?_
        rintro ⟨h, behind', heq⟩
        cases heq
        exact hslug h
    · rename_i hclose
      simp [hclose]
  · refine iff_of_false (by simp) ?_
    rintro ⟨htwo, heven, -⟩
    exact hrun ⟨htwo, heven⟩

/-! ## The inner loop -/

variable {candidate behind : Bytes}

theorem closeRef_eq (h : closeRef text = some (candidate, behind)) :
    text = candidate ++ closeBracket :: closeBracket :: behind := by
  induction text generalizing candidate with
  | nil => simp [closeRef] at h
  | cons a text ih =>
    rcases text with _ | ⟨b, rest⟩
    · simp [closeRef] at h
    · unfold closeRef at h
      split_ifs at h with hopen hclose
      · cases h
        rw [hclose.1, hclose.2]
        rfl
      · obtain ⟨⟨inner, behind'⟩, hinner, heq⟩ := Option.map_eq_some_iff.mp h
        cases heq
        rw [List.cons_append, ← ih hinner]

theorem closeRef_append (hbytes : ∀ b ∈ slug, isSlugByte b = true) (behind : Bytes) :
    closeRef (slug ++ closeBracket :: closeBracket :: behind) = some (slug, behind) := by
  induction slug with
  | nil =>
    unfold closeRef
    simp [show closeBracket ≠ openBracket by decide]
  | cons x slug ih =>
    have hx := hbytes x (List.mem_cons_self)
    have hopen : x ≠ openBracket := by
      rintro rfl
      revert hx
      decide
    have hclose : x ≠ closeBracket := by
      rintro rfl
      revert hx
      decide
    have hrest := ih fun b hb => hbytes b (List.mem_cons_of_mem _ hb)
    obtain ⟨b, rest, heq⟩ : ∃ b rest, slug ++ closeBracket :: closeBracket :: behind = b :: rest := by
      rcases slug with _ | ⟨b, slug⟩
      · exact ⟨_, _, rfl⟩
      · exact ⟨_, _, rfl⟩
    rw [heq] at hrest
    rw [List.cons_append, heq]
    unfold closeRef
    simp [hopen, hclose, hrest]

theorem length_closeRef (h : closeRef text = some (candidate, behind)) :
    text.length = candidate.length + 2 + behind.length := by
  rw [closeRef_eq h]
  simp
  omega

theorem closeRef_slug (hslug : IsSlug slug) : (∃ behind, closeRef text = some (slug, behind)) ↔
      slug ++ [closeBracket, closeBracket] <+: text := by
  constructor
  · rintro ⟨behind, h⟩
    exact ⟨behind, by rw [closeRef_eq h]; simp⟩
  · rintro ⟨behind, rfl⟩
    refine ⟨behind, ?_⟩
    rw [List.append_assoc]
    exact closeRef_append hslug.bytes behind

/-! ## The scan finds them all -/

theorem refs_cons {a b : UInt8} (h : ¬ (a = openBracket ∧ b = openBracket)) (rest : Bytes) :
    refs 0 (a :: b :: rest) = refs 0 (b :: rest) := by
  by_cases ha : a = openBracket
  · have hb : b ≠ openBracket := fun hb => h ⟨ha, hb⟩
    have hone : ¬ Even 1 := by decide
    simp [refs, ha, hb, refHere_odd hone]
  · simp [refs, ha]

theorem refs_add_two (hrun : 1 ≤ run) (text : Bytes) : refs (run + 2) text = refs run text := by
  induction text generalizing run with
  | nil => rfl
  | cons c rest ih =>
    unfold refs
    split_ifs
    · exact ih (by omega : 1 ≤ run + 1)
    · congr 1
      have heven : Even (run + 2) ↔ Even run := by simp [Nat.even_add]
      by_cases hodd : Even run
      · have htwo : 2 ≤ run := by
          obtain ⟨k, rfl⟩ := hodd
          omega
        unfold refHere
        simp [heven, htwo]
      · rw [refHere_odd hodd, refHere_odd (fun h => hodd (heven.mp h))]

theorem refs_short (h : run + text.length ≤ 3) : refs run text = [] := by
  induction text generalizing run with
  | nil => rfl
  | cons c rest ih =>
    simp only [List.length_cons] at h
    unfold refs
    split_ifs
    · exact ih (by omega)
    · rw [ih (by omega), List.append_nil, List.eq_nil_iff_forall_not_mem]
      intro slug hslug
      obtain ⟨htwo, -, -, behind, hclose⟩ := mem_refHere.mp hslug
      have hlength := length_closeRef hclose
      simp only [List.length_cons] at hlength
      omega

theorem refs_of_closeRef (h : closeRef text = some (candidate, behind)) :
    refs 0 text = refs 0 behind := by
  induction text generalizing candidate with
  | nil => simp [closeRef] at h
  | cons a text ih =>
    rcases text with _ | ⟨b, rest⟩
    · simp [closeRef] at h
    · unfold closeRef at h
      split_ifs at h with hopen hclose
      · cases h
        have hne : closeBracket ≠ openBracket := by decide
        simp [refs, hclose.1, hclose.2, hne]
      · obtain ⟨⟨inner, behind'⟩, hinner, heq⟩ := Option.map_eq_some_iff.mp h
        cases heq
        rw [refs_cons hopen]
        exact ih hinner

theorem refs_two_of_close (h : closeRef text = some (candidate, behind)) :
    refs 2 text = (if IsSlug candidate then [candidate] else []) ++ refs 0 behind := by
  have hbehind := refs_of_closeRef h
  rcases text with _ | ⟨a, text⟩
  · simp [closeRef] at h
  · by_cases ha : a = openBracket
    · -- One more opening bracket: the candidate starts with it and is no slug.
      subst ha
      rcases text with _ | ⟨b, rest⟩
      · simp [closeRef] at h
      · have hcandidate : ¬ IsSlug candidate := by
          intro hslug
          have hfront := closeRef_eq h
          rcases candidate with _ | ⟨x, candidate⟩
          · exact hslug.ne_nil rfl
          · rw [List.cons_append] at hfront
            have hx := hslug.bytes x (List.mem_cons_self)
            rw [← (List.cons.inj hfront).1] at hx
            revert hx
            decide
        have hb : b ≠ openBracket := by
          rintro rfl
          simp [closeRef] at h
        have hthree : ¬ Even 3 := by decide
        have hone : ¬ Even 1 := by decide
        rw [if_neg hcandidate, List.nil_append, ← hbehind]
        simp [refs, hb, refHere_odd hthree, refHere_odd hone]
    · have hhere : refHere 2 (a :: text) = if IsSlug candidate then [candidate] else [] := by
        unfold refHere
        simp [h]
      rw [← hbehind, refs, if_neg ha, hhere]
      simp [refs, ha]

theorem refs_two_of_none (h : closeRef text = none) : refs 2 text = refs 0 text := by
  rcases text with _ | ⟨c, rest⟩
  · rfl
  · by_cases hc : c = openBracket
    · simp only [refs, hc, if_true]
      exact refs_add_two (le_refl 1) rest
    · have hhere : refHere 2 (c :: rest) = [] := by
        unfold refHere
        simp [h]
      simp [refs, hc, hhere]

theorem scanRefs_eq {fuel : Nat} (hfuel : text.length ≤ fuel) (out : List Bytes) :
    scanRefs fuel text out = (refs 0 text).foldl pushNew out := by
  induction fuel generalizing text out with
  | zero =>
    rw [List.eq_nil_of_length_eq_zero (by omega : text.length = 0)]
    rfl
  | succ fuel ih =>
    rcases text with _ | ⟨a, _ | ⟨b, rest⟩⟩
    · rfl
    · rw [refs_short (by simp)]
      rfl
    · simp only [List.length_cons] at hfuel
      unfold scanRefs
      split_ifs with hshort hopen
      · rw [refs_short (by simp only [List.length_cons]; omega)]
        rfl
      · have htwo : refs 0 (a :: b :: rest) = refs 2 rest := by simp [refs, hopen.1, hopen.2]
        rw [htwo]
        split
        · rename_i candidate behind hclose
          have hlength := length_closeRef hclose
          rw [refs_two_of_close hclose, List.foldl_append, ih (by omega)]
          split_ifs <;> rfl
        · rename_i hclose
          rw [refs_two_of_none hclose, ih (by omega)]
      · rw [refs_cons hopen, ih (by simp only [List.length_cons]; omega)]

theorem extractRefs_eq (body : Bytes) : extractRefs body = (refs 0 body).foldl pushNew [] :=
  scanRefs_eq (le_refl _) []

/-! ## Where they stand -/

theorem openRun_append (text : Bytes) (c : UInt8) :
    openRun (text ++ [c]) = if c = openBracket then openRun text + 1 else 0 := by
  unfold openRun
  rw [List.reverse_append, List.reverse_singleton, List.singleton_append, List.takeWhile_cons]
  split_ifs <;> simp_all

theorem two_le_openRun :
    2 ≤ openRun text ↔ ∃ before, text = before ++ [openBracket, openBracket] := by
  constructor
  · intro h
    rcases List.eq_nil_or_concat text with rfl | ⟨init, c, rfl⟩
    · simp [openRun] at h
    · rw [List.concat_eq_append, openRun_append] at h
      split_ifs at h with hc
      · rcases List.eq_nil_or_concat init with rfl | ⟨before, d, rfl⟩
        · simp [openRun] at h
        · rw [List.concat_eq_append, openRun_append] at h
          split_ifs at h with hd
          · exact ⟨before, by simp [hc, hd]⟩
          · omega
      · omega
  · rintro ⟨before, rfl⟩
    rw [show before ++ [openBracket, openBracket] = before ++ [openBracket] ++ [openBracket] by simp,
      openRun_append, openRun_append]
    simp

theorem occursAt_reference {before : Bytes} {p : Nat} (hp : p + 2 = before.length) :
    OccursAt (before ++ text) (reference slug) p ↔
      (∃ front, before = front ++ [openBracket, openBracket]) ∧
        slug ++ [closeBracket, closeBracket] <+: text := by
  obtain ⟨front, last, rfl, hfront⟩ : ∃ front last, before = front ++ last ∧ front.length = p :=
    ⟨before.take p, before.drop p, (List.take_append_drop p before).symm, by
      rw [List.length_take]
      omega⟩
  have hlast : last.length = 2 := by
    rw [List.length_append] at hp
    omega
  obtain ⟨x, y, rfl⟩ : ∃ x y, last = [x, y] := List.length_eq_two.mp hlast
  unfold OccursAt reference
  rw [List.append_assoc, ← hfront, List.drop_left]
  simp only [List.cons_append, List.nil_append, List.cons_prefix_cons]
  constructor
  · rintro ⟨rfl, rfl, hslug⟩
    exact ⟨⟨front, rfl⟩, hslug⟩
  · rintro ⟨⟨front', heq⟩, hslug⟩
    obtain ⟨-, hpair⟩ := List.append_inj' heq rfl
    cases hpair
    exact ⟨rfl, rfl, hslug⟩

theorem mem_refsFrom (before text slug : Bytes) (p : Nat) :
    (p, slug) ∈ refsFrom before.length (openRun before) text ↔
      before.length ≤ p + 2 ∧ RefersAt (before ++ text) slug p := by
  induction text generalizing before with
  | nil =>
    refine iff_of_false (by simp [refsFrom]) ?_
    rintro ⟨hle, -, hoccurs, -⟩
    have hlength := hoccurs.le_length (by simp [reference])
    simp only [reference, List.append_nil, List.length_append, List.length_cons,
      List.length_nil] at hlength
    omega
  | cons c rest ih =>
    have hstep := ih (before ++ [c])
    rw [openRun_append, List.length_append, List.length_singleton, List.append_assoc,
      List.singleton_append] at hstep
    -- Either the slug starts here, or the reference is one of the rest.
    have hhere : p + 2 = before.length →
        (RefersAt (before ++ c :: rest) slug p ↔ slug ∈ refHere (openRun before) (c :: rest)) := by
      intro hp
      unfold RefersAt
      rw [hp, List.take_left, occursAt_reference hp, ← two_le_openRun, mem_refHere]
      constructor
      · rintro ⟨hslug, ⟨htwo, hprefix⟩, heven⟩
        exact ⟨htwo, heven, hslug, (closeRef_slug hslug).mpr hprefix⟩
      · rintro ⟨htwo, heven, hslug, hclose⟩
        exact ⟨hslug, ⟨htwo, (closeRef_slug hslug).mp hclose⟩, heven⟩
    unfold refsFrom
    split_ifs with hc
    · rw [if_pos hc] at hstep
      rw [hstep]
      refine and_congr_left fun hrefers => ?_
      constructor
      · omega
      · intro hle
        rcases Nat.lt_or_ge before.length (p + 2) with hlt | hge
        · omega
        · -- A slug does not start with a bracket.
          obtain ⟨-, -, hslug, behind, hclose⟩ :=
            mem_refHere.mp ((hhere (by omega)).mp hrefers)
          have hfront := closeRef_eq hclose
          rcases slug with _ | ⟨x, slug⟩
          · exact absurd rfl hslug.ne_nil
          · rw [List.cons_append] at hfront
            have hx := hslug.bytes x (List.mem_cons_self)
            rw [← (List.cons.inj hfront).1, hc] at hx
            exact absurd hx (by decide)
    · rw [if_neg hc] at hstep
      rw [List.mem_append, hstep]
      constructor
      · rintro (hmem | ⟨hle, hrefers⟩)
        · obtain ⟨slug', hslug', heq⟩ := List.mem_map.mp hmem
          cases heq
          have htwo := (mem_refHere.mp hslug').1
          obtain ⟨front, hbefore⟩ := two_le_openRun.mp htwo
          have hlength : 2 ≤ before.length := by
            rw [hbefore]
            simp
          exact ⟨by omega, (hhere (by omega)).mpr hslug'⟩
        · exact ⟨by omega, hrefers⟩
      · rintro ⟨hle, hrefers⟩
        rcases Nat.lt_or_ge before.length (p + 2) with hlt | hge
        · exact Or.inr ⟨by omega, hrefers⟩
        · refine Or.inl (List.mem_map.mpr ⟨slug, (hhere (by omega)).mp hrefers, ?_⟩)
          rw [Prod.mk.injEq]
          exact ⟨by omega, rfl⟩

theorem le_of_mem_refsFrom {start : Nat} {x : Nat × Bytes} (h : x ∈ refsFrom start run text) :
    start ≤ x.1 + 2 := by
  induction text generalizing start run with
  | nil => simp [refsFrom] at h
  | cons c rest ih =>
    unfold refsFrom at h
    split_ifs at h
    · exact (Nat.le_succ _).trans (ih h)
    · rcases List.mem_append.mp h with h | h
      · obtain ⟨slug, -, rfl⟩ := List.mem_map.mp h
        simp only
        omega
      · exact (Nat.le_succ _).trans (ih h)

theorem pairwise_refHere (run : Nat) (text : Bytes) (R : Bytes → Bytes → Prop) :
    (refHere run text).Pairwise R := by
  unfold refHere
  split_ifs
  · split
    · split_ifs <;> simp
    · exact List.Pairwise.nil
  · exact List.Pairwise.nil

theorem sorted_refsFrom {start : Nat} (hrun : run ≤ start) (text : Bytes) :
    (refsFrom start run text).Pairwise fun x y => x.1 < y.1 := by
  induction text generalizing start run with
  | nil => exact List.Pairwise.nil
  | cons c rest ih =>
    unfold refsFrom
    split_ifs
    · exact ih (by omega)
    · refine List.pairwise_append.mpr ⟨?_, ih (Nat.zero_le _), ?_⟩
      · rw [List.pairwise_map]
        exact pairwise_refHere _ _ _
      · intro x hx y hy
        obtain ⟨slug, hslug, rfl⟩ := List.mem_map.mp hx
        have htwo := (mem_refHere.mp hslug).1
        have hle := le_of_mem_refsFrom hy
        simp only
        omega

/-! ## The references of a text -/

/-- `extract_refs` lists the slugs of the references, each of them once, by their first places. -/
theorem extract_refs_exact (body : Bytes) : Firsts (RefersAt body) (extractRefs body) := by
  have hfirsts := firsts_foldl_pushNew (sorted_refsFrom (le_refl 0) body)
  rw [map_refsFrom, ← extractRefs_eq] at hfirsts
  have hrefers : (fun slug p => (p, slug) ∈ refsFrom 0 0 body) = RefersAt body := by
    funext slug p
    have hmem := mem_refsFrom [] body slug p
    simp only [List.nil_append, List.length_nil, Nat.zero_le, true_and] at hmem
    exact propext hmem
  rwa [hrefers] at hfirsts

/-- A third bracket hides the reference behind it. -/
theorem extract_refs_hides_odd :
    ¬ ∀ body, Firsts (fun slug p => IsSlug slug ∧ OccursAt body (reference slug) p)
      (extractRefs body) := by
  intro h
  have hmem := (h (bytesOf "[[[mem/x]]")).mem (bytesOf "mem/x")
  have hnone : extractRefs (bytesOf "[[[mem/x]]") = [] := by decide
  rw [hnone] at hmem
  exact absurd (hmem.mpr ⟨1, by decide, by decide⟩) (by simp)

end Vingilot.Engram
