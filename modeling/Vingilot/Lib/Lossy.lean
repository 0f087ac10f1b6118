import Vingilot.Lib.Codes
import Vingilot.Lib.Json

/-!
# Lossy decoding of UTF-8

The decoder takes one byte after the other. A byte that cannot go on with the sequence before it
ends that sequence as a replacement character, and is then taken as the first byte of another one.
So does the end of the text.
-/

namespace Lossy

/-- Where a byte after the first one of its sequence must lie. -/
structure Span where
  lo : Nat
  hi : Nat
  lo_ge : 0x80 ≤ lo
  hi_le : hi ≤ 0xBF

def Span.has (r : Span) (b : UInt8) : Bool := r.lo ≤ b.toNat && b.toNat ≤ r.hi

def tail : Span := ⟨0x80, 0xBF, by decide, by decide⟩

/-- The bits of the sequence that the decoder stands in, and where its other bytes must lie. Between
two sequences none are due. -/
structure State where
  bits : Nat
  due : List Span

def idle : State := ⟨0, []⟩

/-- The first byte of a sequence of more than one. Its second byte must not make the sequence longer
than needed, a surrogate, or more than the last code point. -/
def lead (b : Nat) : Option State :=
  if 0xC2 ≤ b ∧ b ≤ 0xDF then some ⟨b % 32, [tail]⟩
  else if b = 0xE0 then some ⟨0, [⟨0xA0, 0xBF, by decide, by decide⟩, tail]⟩
  else if b = 0xED then some ⟨13, [⟨0x80, 0x9F, by decide, by decide⟩, tail]⟩
  else if 0xE1 ≤ b ∧ b ≤ 0xEF then some ⟨b % 16, [tail, tail]⟩
  else if b = 0xF0 then some ⟨0, [⟨0x90, 0xBF, by decide, by decide⟩, tail, tail]⟩
  else if 0xF1 ≤ b ∧ b ≤ 0xF3 then some ⟨b % 8, [tail, tail, tail]⟩
  else if b = 0xF4 then some ⟨4, [⟨0x80, 0x8F, by decide, by decide⟩, tail, tail]⟩
  else none

def replacement : Char := '\uFFFD'

def first (b : UInt8) : State × List Char :=
  if b.toNat ≤ 0x7F then (idle, [Char.ofNat b.toNat])
  else
    match lead b.toNat with
    | some s => (s, [])
    | none => (idle, [replacement])

def next (s : State) (b : UInt8) : State × List Char :=
  match s.due with
  | [] => first b
  | r :: due =>
    if r.has b then
      let bits := s.bits * 64 + b.toNat % 64
      match due with
      | [] => (idle, [Char.ofNat bits])
      | r' :: due => (⟨bits, r' :: due⟩, [])
    else ((first b).1, replacement :: (first b).2)

def finish (s : State) : List Char :=
  match s.due with
  | [] => []
  | _ :: _ => [replacement]

def decodeFrom : State → List UInt8 → List Char
  | s, [] => finish s
  | s, b :: bytes => (next s b).2 ++ decodeFrom (next s b).1 bytes

def decode (bytes : List UInt8) : List Char := decodeFrom idle bytes

def stateAfter : State → List UInt8 → State
  | s, [] => s
  | s, b :: bytes => stateAfter (next s b).1 bytes

/-- The first byte goes on with the sequence that the decoder stands in. -/
def continues (s : State) (bytes : List UInt8) : Bool :=
  match s.due, bytes with
  | r :: _, b :: _ => r.has b
  | _, _ => false

/-- A sequence goes over the border between the two. -/
def cuts (a b : List UInt8) : Bool := continues (stateAfter idle a) b

/-! ## One byte -/

variable {r : Span} {b : UInt8}

/-- A byte that goes on with a sequence cannot begin one. -/
theorem first_of_has (h : r.has b = true) : first b = (idle, [replacement]) := by
  obtain ⟨hlo, hhi⟩ : r.lo ≤ b.toNat ∧ b.toNat ≤ r.hi := by simpa [Span.has] using h
  have hge := r.lo_ge
  have hle := r.hi_le
  have hnone : lead b.toNat = none := by
    unfold lead
    repeat rw [if_neg (by omega)]
  unfold first
  rw [if_neg (by omega), hnone]

variable {s : State}

theorem next_of_due_nil (h : s.due = []) (b : UInt8) : next s b = first b := by
  unfold next
  rw [h]

variable {due : List Span}

theorem next_of_not_has (hdue : s.due = r :: due) (h : r.has b = false) :
    next s b = ((first b).1, replacement :: (first b).2) := by
  unfold next
  rw [hdue]
  simp [h]

theorem next_last (hdue : s.due = [r]) (h : r.has b = true) :
    next s b = (idle, [Char.ofNat (s.bits * 64 + b.toNat % 64)]) := by
  unfold next
  rw [hdue]
  simp [h]

theorem next_inner {r' : Span} (hdue : s.due = r :: r' :: due) (h : r.has b = true) :
    next s b = (⟨s.bits * 64 + b.toNat % 64, r' :: due⟩, []) := by
  unfold next
  rw [hdue]
  simp [h]

/-! ## A text in two parts -/

theorem finish_of_due_nil (h : s.due = []) : finish s = [] := by
  unfold finish
  rw [h]

theorem finish_of_due (h : s.due = r :: due) : finish s = [replacement] := by
  unfold finish
  rw [h]

/-- Both decodings begin with what the first part gives before its end. -/
theorem decodeFrom_append (s : State) (a : List UInt8) : ∃ out,
    decodeFrom s a = out ++ finish (stateAfter s a) ∧
      ∀ b, decodeFrom s (a ++ b) = out ++ decodeFrom (stateAfter s a) b := by
  induction a generalizing s with
  | nil => exact ⟨[], rfl, fun _ => rfl⟩
  | cons c a ih =>
    obtain ⟨out, hout, hrest⟩ := ih (next s c).1
    refine ⟨(next s c).2 ++ out, ?_, fun b => ?_⟩
    · rw [decodeFrom, hout, List.append_assoc]
      rfl
    · rw [List.cons_append, decodeFrom, hrest, List.append_assoc]
      rfl

theorem decodeFrom_of_not_continues {bytes : List UInt8} (h : continues s bytes = false) :
    decodeFrom s bytes = finish s ++ decode bytes := by
  cases hdue : s.due with
  | nil =>
    cases bytes with
    | nil => exact (List.append_nil _).symm
    | cons b bytes =>
      rw [decode, decodeFrom, decodeFrom, next_of_due_nil hdue, next_of_due_nil rfl,
        finish_of_due_nil hdue]
      rfl
  | cons r due =>
    cases bytes with
    | nil => exact (List.append_nil _).symm
    | cons b bytes =>
      have hnot : r.has b = false := by simpa [continues, hdue] using h
      rw [decode, decodeFrom, decodeFrom, next_of_not_has hdue hnot, next_of_due_nil rfl,
        finish_of_due hdue]
      rfl

/-- The sequence is taken as one character, where it would have been two or more. -/
theorem length_decodeFrom_cons_lt {bytes : List UInt8}
    (hle : ∀ t, (decodeFrom t bytes).length ≤ (finish t).length + (decode bytes).length)
    (h : continues s (b :: bytes) = true) :
    (decodeFrom s (b :: bytes)).length < (finish s).length + (decode (b :: bytes)).length := by
  cases hdue : s.due with
  | nil => simp [continues, hdue] at h
  | cons r due =>
    have hhas : r.has b = true := by simpa [continues, hdue] using h
    have hdecode : decode (b :: bytes) = replacement :: decode bytes := by
      rw [decode, decodeFrom, next_of_due_nil rfl, first_of_has hhas]
      rfl
    rw [hdecode, finish_of_due hdue, decodeFrom]
    cases due with
    | nil =>
      rw [next_last hdue hhas]
      simp [decode]
    | cons r' due =>
      have hopen := hle ⟨s.bits * 64 + b.toNat % 64, r' :: due⟩
      rw [finish_of_due rfl] at hopen
      rw [next_inner hdue hhas]
      simp only [List.nil_append, List.length_cons, List.length_nil] at hopen ⊢
      omega

/-- A sequence that is open costs one character more at most. -/
theorem length_decodeFrom_le (s : State) (bytes : List UInt8) :
    (decodeFrom s bytes).length ≤ (finish s).length + (decode bytes).length := by
  induction bytes generalizing s with
  | nil => exact Nat.le_add_right _ _
  | cons b bytes ih =>
    cases hcont : continues s (b :: bytes) with
    | false => rw [decodeFrom_of_not_continues hcont, List.length_append]
    | true => exact Nat.le_of_lt (length_decodeFrom_cons_lt ih hcont)

theorem continues_nil (s : State) : continues s [] = false := by
  cases hdue : s.due with
  | nil => simp [continues, hdue]
  | cons r due => simp [continues, hdue]

variable {a : List UInt8}

theorem decode_append {b : List UInt8} (h : cuts a b = false) :
    decode (a ++ b) = decode a ++ decode b := by
  obtain ⟨out, hout, hrest⟩ := decodeFrom_append idle a
  rw [decode, hrest, decodeFrom_of_not_continues h, ← List.append_assoc, ← hout]
  rfl

theorem length_decode_append_le (a b : List UInt8) :
    (decode (a ++ b)).length ≤ (decode a).length + (decode b).length := by
  obtain ⟨out, hout, hrest⟩ := decodeFrom_append idle a
  have hle := length_decodeFrom_le (stateAfter idle a) b
  rw [decode, hrest, decode, hout, List.length_append, List.length_append]
  omega

theorem length_decode_append_lt {b : List UInt8} (h : cuts a b = true) :
    (decode (a ++ b)).length < (decode a).length + (decode b).length := by
  obtain ⟨out, hout, hrest⟩ := decodeFrom_append idle a
  cases b with
  | nil =>
    rw [cuts, continues_nil] at h
    cases h
  | cons c b =>
    have hlt := length_decodeFrom_cons_lt (fun t => length_decodeFrom_le t b) h
    rw [decode, hrest, decode, hout, List.length_append, List.length_append]
    omega

/-! ## A text in many parts -/

/-- No sequence goes over a border between two parts. -/
def Whole (parts : List (List UInt8)) : Prop :=
  ∀ before after, parts = before ++ after → cuts before.flatten after.flatten = false

instance (parts : List (List UInt8)) : Decidable (Whole parts) :=
  decidable_of_iff (∀ n < parts.length + 1,
    cuts (parts.take n).flatten (parts.drop n).flatten = false) (by
      constructor
      · rintro h before after rfl
        have hcuts := h before.length (by rw [List.length_append]; omega)
        rwa [List.take_left, List.drop_left] at hcuts
      · intro h n _
        exact h _ _ (List.take_append_drop n parts).symm)

theorem continues_append (h : continues s a = true) (b : List UInt8) :
    continues s (a ++ b) = true := by
  cases a with
  | nil =>
    rw [continues_nil] at h
    cases h
  | cons c a =>
    cases hdue : s.due with
    | nil => simp [continues, hdue] at h
    | cons r due => simpa [continues, hdue] using h

theorem length_decode_flatten_le (parts : List (List UInt8)) :
    (decode parts.flatten).length ≤ (parts.flatMap decode).length := by
  induction parts with
  | nil => exact Nat.le_refl _
  | cons part parts ih =>
    have hle := length_decode_append_le part parts.flatten
    rw [List.flatten_cons, List.flatMap_cons, List.length_append]
    omega

/-- Each border that cuts a sequence makes the text longer. -/
theorem flatMap_decode_iff (parts : List (List UInt8)) :
    parts.flatMap decode = decode parts.flatten ↔ Whole parts := by
  constructor
  · intro heq before after hparts
    by_contra hcuts
    have hlt := length_decode_append_lt (Bool.not_eq_false _ ▸ hcuts)
    have hbefore := length_decode_flatten_le before
    have hafter := length_decode_flatten_le after
    have hlength := congrArg List.length heq
    rw [hparts, List.flatMap_append, List.flatten_append, List.length_append] at hlength
    omega
  · intro hwhole
    induction parts using List.reverseRecOn with
    | nil => rfl
    | append_singleton parts part ih =>
      have hlast := hwhole parts [part] rfl
      have hbefore := ih fun before after hparts => by
        have hcuts := hwhole before (after ++ [part]) (by rw [hparts, List.append_assoc])
        rw [List.flatten_append] at hcuts
        by_contra hcut
        rw [cuts, continues_append (Bool.not_eq_false _ ▸ hcut)] at hcuts
        cases hcuts
      rw [List.flatten_singleton] at hlast
      rw [List.flatMap_append, hbefore, List.flatMap_singleton, List.flatten_append,
        List.flatten_singleton, decode_append hlast]

/-! ## Valid texts -/

variable {v : Nat}

theorem lead_two (hmin : 0x80 ≤ v) (hmax : v ≤ 0x7FF) :
    lead (v / 64 + 0xC0) = some ⟨v / 64, [tail]⟩ := by
  unfold lead
  rw [if_pos (by omega), show (v / 64 + 0xC0) % 32 = v / 64 by omega]

theorem lead_three (hmin : 0x800 ≤ v) (hmax : v ≤ 0xFFFF) (hvalid : v < 0xD800 ∨ 0xDFFF < v) :
    ∃ r : Span,
    lead (v / 4096 + 0xE0) = some ⟨v / 4096, [r, tail]⟩ ∧
      r.lo ≤ v / 64 % 64 + 0x80 ∧ v / 64 % 64 + 0x80 ≤ r.hi := by
  unfold lead
  rw [if_neg (by omega)]
  by_cases hshort : v < 0x1000
  · rw [if_pos (by omega), show v / 4096 = 0 by omega]
    exact ⟨_, rfl, by simp only; omega, by simp only; omega⟩
  · rw [if_neg (by omega)]
    by_cases hsurrogate : v / 4096 = 13
    · rw [if_pos (by omega), hsurrogate]
      exact ⟨_, rfl, by simp only; omega, by simp only; omega⟩
    · rw [if_neg (by omega), if_pos (by omega), show (v / 4096 + 0xE0) % 16 = v / 4096 by omega]
      exact ⟨_, rfl, by simp only [tail]; omega, by simp only [tail]; omega⟩

theorem lead_four (hmin : 0x10000 ≤ v) (hmax : v < 0x110000) : ∃ r : Span,
    lead (v / 262144 + 0xF0) = some ⟨v / 262144, [r, tail, tail]⟩ ∧
      r.lo ≤ v / 4096 % 64 + 0x80 ∧ v / 4096 % 64 + 0x80 ≤ r.hi := by
  unfold lead
  rw [if_neg (by omega), if_neg (by omega), if_neg (by omega), if_neg (by omega)]
  by_cases hshort : v < 0x40000
  · rw [if_pos (by omega), show v / 262144 = 0 by omega]
    exact ⟨_, rfl, by simp only; omega, by simp only; omega⟩
  · rw [if_neg (by omega)]
    by_cases hlast : v / 262144 = 4
    · rw [if_neg (by omega), if_pos (by omega), hlast]
      exact ⟨_, rfl, by simp only; omega, by simp only; omega⟩
    · rw [if_pos (by omega), show (v / 262144 + 0xF0) % 8 = v / 262144 by omega]
      exact ⟨_, rfl, by simp only [tail]; omega, by simp only [tail]; omega⟩

variable {n : Nat}

theorem toNat_byte (h : n < 256) : (UInt8.ofNat n).toNat = n :=
  UInt8.toNat_ofNat_of_lt' h

theorem decode_cons_of_lead (h : lead n = some s) (hmin : 0x80 ≤ n) (hmax : n < 256)
    (bytes : List UInt8) : decode (UInt8.ofNat n :: bytes) = decodeFrom s bytes := by
  have hn : (UInt8.ofNat n).toNat = n := toNat_byte hmax
  rw [decode, decodeFrom, next_of_due_nil rfl, first, if_neg (by omega), hn, h]
  rfl

theorem decodeFrom_last {bits : Nat} (hn : n < 64) (bytes : List UInt8) :
    decodeFrom ⟨bits, [tail]⟩ (UInt8.ofNat (n + 0x80) :: bytes) =
      Char.ofNat (bits * 64 + n) :: decode bytes := by
  have hbyte : (UInt8.ofNat (n + 0x80)).toNat = n + 0x80 := toNat_byte (by omega)
  have hhas : tail.has (UInt8.ofNat (n + 0x80)) = true := by
    simp only [Span.has, hbyte, tail, Bool.and_eq_true, decide_eq_true_eq]
    omega
  rw [decodeFrom, next_last rfl hhas, hbyte, show (n + 0x80) % 64 = n by omega]
  rfl

theorem decodeFrom_inner {bits : Nat} {r' : Span} (hlo : r.lo ≤ n + 0x80) (hhi : n + 0x80 ≤ r.hi)
    (bytes : List UInt8) : decodeFrom ⟨bits, r :: r' :: due⟩ (UInt8.ofNat (n + 0x80) :: bytes) =
      decodeFrom ⟨bits * 64 + n, r' :: due⟩ bytes := by
  have hle := r.hi_le
  have hbyte : (UInt8.ofNat (n + 0x80)).toNat = n + 0x80 := toNat_byte (by omega)
  have hhas : r.has (UInt8.ofNat (n + 0x80)) = true := by
    simp only [Span.has, hbyte, Bool.and_eq_true, decide_eq_true_eq]
    exact ⟨hlo, hhi⟩
  rw [decodeFrom, next_inner rfl hhas, hbyte, show (n + 0x80) % 64 = n by omega]
  rfl

theorem decode_encoded (c : Char) (bytes : List UInt8) :
    decode (String.utf8EncodeChar c ++ bytes) = c :: decode bytes := by
  have hvalid : c.val.toNat < 0xD800 ∨ 0xDFFF < c.val.toNat ∧ c.val.toNat < 0x110000 := c.valid
  have hchar : Char.ofNat c.val.toNat = c := Char.ofNat_toNat c
  unfold String.utf8EncodeChar
  generalize c.val.toNat = v at hvalid hchar
  simp only
  split_ifs with h1 h2 h3
  · have hbyte : (UInt8.ofNat v).toNat = v := toNat_byte (by omega)
    rw [List.cons_append, decode, decodeFrom, next_of_due_nil rfl, first, hbyte, if_pos h1, hchar]
    rfl
  · rw [show v / 64 % 0x20 = v / 64 by omega]
    simp only [List.cons_append, List.nil_append]
    rw [decode_cons_of_lead (lead_two (by omega) h2) (by omega) (by omega),
      decodeFrom_last (by omega), show v / 64 * 64 + v % 64 = v by omega, hchar]
  · obtain ⟨r, hlead, hlo, hhi⟩ := lead_three (v := v) (by omega) h3 (by omega)
    rw [show v / 4096 % 0x10 = v / 4096 by omega]
    simp only [List.cons_append, List.nil_append]
    rw [decode_cons_of_lead hlead (by omega) (by omega), decodeFrom_inner hlo hhi,
      decodeFrom_last (by omega), show (v / 4096 * 64 + v / 64 % 64) * 64 + v % 64 = v by omega, hchar]
  · obtain ⟨r, hlead, hlo, hhi⟩ := lead_four (v := v) (by omega) (by omega)
    rw [show v / 262144 % 0x08 = v / 262144 by omega]
    simp only [List.cons_append, List.nil_append]
    rw [decode_cons_of_lead hlead (by omega) (by omega), decodeFrom_inner hlo hhi,
      decodeFrom_inner (by simp only [tail]; omega) (by simp only [tail]; omega),
      decodeFrom_last (by omega),
      show ((v / 262144 * 64 + v / 4096 % 64) * 64 + v / 64 % 64) * 64 + v % 64 = v by omega, hchar]

/-- Nothing is lost of a text. -/
theorem decode_utf8 (text : List Char) : decode (Codes.utf8 text) = text := by
  induction text with
  | nil => rfl
  | cons c text ih =>
    rw [Codes.utf8, List.flatMap_cons, decode_encoded]
    exact congrArg _ ih

/-! ## The size of the text -/

theorem length_finish_le (s : State) : (finish s).length ≤ 1 := by
  cases hdue : s.due with
  | nil =>
    rw [finish_of_due_nil hdue]
    exact Nat.zero_le _
  | cons r due => rw [finish_of_due hdue, List.length_singleton]

theorem byteSize_first_le (b : UInt8) :
    Json.byteSize (first b).2 + 3 * (finish (first b).1).length ≤ 3 := by
  have hascii : ∀ n < 128, Json.byteSize [Char.ofNat n] ≤ 3 := by decide
  unfold first
  split_ifs with hb
  · exact hascii b.toNat (by omega)
  · cases lead b.toNat with
    | none => decide
    | some s =>
      have hle := length_finish_le s
      simp only [Json.byteSize_nil]
      omega

/-- What a byte adds to the text has three bytes, with the replacement character that is due should
the text end. -/
theorem byteSize_next_le (s : State) (b : UInt8) :
    Json.byteSize (next s b).2 + 3 * (finish (next s b).1).length ≤ 3 * (finish s).length + 3 := by
  have hfirst := byteSize_first_le b
  have hreplacement : replacement.utf8Size = 3 := by decide
  cases hdue : s.due with
  | nil =>
    rw [next_of_due_nil hdue]
    omega
  | cons r due =>
    rw [finish_of_due hdue, List.length_singleton]
    cases hhas : r.has b with
    | false =>
      rw [next_of_not_has hdue hhas]
      simp only [Json.byteSize_cons, hreplacement]
      omega
    | true =>
      cases due with
      | nil =>
        have hchar := Char.utf8Size_le_four (Char.ofNat (s.bits * 64 + b.toNat % 64))
        rw [next_last hdue hhas]
        simp only [Json.byteSize_cons, Json.byteSize_nil, @finish_of_due_nil idle rfl,
          List.length_nil]
        omega
      | cons r' due =>
        rw [next_inner hdue hhas]
        simp [Json.byteSize_nil, finish]

theorem byteSize_decodeFrom_le (s : State) (bytes : List UInt8) :
    Json.byteSize (decodeFrom s bytes) ≤ 3 * (finish s).length + 3 * bytes.length := by
  have hreplacement : replacement.utf8Size = 3 := by decide
  induction bytes generalizing s with
  | nil =>
    cases hdue : s.due with
    | nil => simp [decodeFrom, finish_of_due_nil hdue, Json.byteSize_nil]
    | cons r due =>
      simp [decodeFrom, finish_of_due hdue, Json.byteSize_cons, Json.byteSize_nil, hreplacement]
  | cons b bytes ih =>
    have hnext := byteSize_next_le s b
    have hrest := ih (next s b).1
    rw [decodeFrom, Json.byteSize_append, List.length_cons]
    omega

theorem byteSize_decode_le (bytes : List UInt8) :
    Json.byteSize (decode bytes) ≤ 3 * bytes.length := by
  have hle := byteSize_decodeFrom_le idle bytes
  rw [finish_of_due_nil rfl, List.length_nil] at hle
  rw [decode]
  omega

end Lossy
