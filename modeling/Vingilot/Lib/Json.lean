import Mathlib.Algebra.Order.Ring.Int
import Mathlib.Data.List.Basic
import Mathlib.Data.List.TakeWhile

/-!
# JSON text

`render` writes a value with no whitespace. `parse` reads any text of RFC 8259. A
number keeps its text, and an object keeps its members in their order, repeats
included.
-/

namespace Json

inductive Value where
  | null
  | bool (b : Bool)
  | num (text : List Char)
  | str (s : String)
  | arr (items : List Value)
  | obj (members : List (String × Value))

/-! ## Writing -/

def hexDigit (n : Nat) : Char := "0123456789abcdef".toList.getD n '0'

def escapeChar (c : Char) : List Char :=
  if c = '"' then ['\\', '"']
  else if c = '\\' then ['\\', '\\']
  else if c.toNat = 8 then ['\\', 'b']
  else if c.toNat = 9 then ['\\', 't']
  else if c.toNat = 10 then ['\\', 'n']
  else if c.toNat = 12 then ['\\', 'f']
  else if c.toNat = 13 then ['\\', 'r']
  else if c.toNat < 32 then
    ['\\', 'u', '0', '0', hexDigit (c.toNat / 16), hexDigit (c.toNat % 16)]
  else [c]

def renderString (s : String) : List Char := '"' :: s.toList.flatMap escapeChar ++ ['"']

mutual

def render : Value → List Char
  | .null => "null".toList
  | .bool true => "true".toList
  | .bool false => "false".toList
  | .num text => text
  | .str s => renderString s
  | .arr [] => ['[', ']']
  | .arr (v :: vs) => '[' :: render v ++ renderItems vs
  | .obj [] => ['{', '}']
  | .obj ((key, v) :: ms) => '{' :: renderString key ++ ':' :: render v ++ renderMembers ms

/-- The rest of an array, from the comma or the closing bracket on. -/
def renderItems : List Value → List Char
  | [] => [']']
  | v :: vs => ',' :: render v ++ renderItems vs

def renderMembers : List (String × Value) → List Char
  | [] => ['}']
  | (key, v) :: ms => ',' :: renderString key ++ ':' :: render v ++ renderMembers ms

end

/-! ## Reading -/

def isSpace (c : Char) : Bool := c == ' ' || c == '\n' || c == '\t' || c == '\r'

def skipSpaces (text : List Char) : List Char := text.dropWhile isSpace

def hexValue (c : Char) : Option Nat :=
  if '0' ≤ c ∧ c ≤ '9' then some (c.toNat - '0'.toNat)
  else if 'a' ≤ c ∧ c ≤ 'f' then some (c.toNat - 'a'.toNat + 10)
  else if 'A' ≤ c ∧ c ≤ 'F' then some (c.toNat - 'A'.toNat + 10)
  else none

/-- Four hex digits. -/
def parseHex4 : List Char → Option (Nat × List Char)
  | a :: b :: c :: d :: rest =>
    match hexValue a, hexValue b, hexValue c, hexValue d with
    | some a, some b, some c, some d => some (((a * 16 + b) * 16 + c) * 16 + d, rest)
    | _, _, _, _ => none
  | _ => none

/-- The character of a surrogate pair whose first half is `high`. -/
def parseLowSurrogate (high : Nat) : List Char → Option (Char × List Char)
  | '\\' :: 'u' :: rest =>
    match parseHex4 rest with
    | some (low, rest) =>
      if 0xDC00 ≤ low ∧ low < 0xE000 then
        some (Char.ofNat (0x10000 + (high - 0xD800) * 0x400 + (low - 0xDC00)), rest)
      else none
    | none => none
  | _ => none

/-- The rest of an escape, after the backslash. -/
def parseEscape : List Char → Option (Char × List Char)
  | [] => none
  | c :: rest =>
    if c = 'u' then
      match parseHex4 rest with
      | none => none
      | some (n, rest) =>
        if 0xD800 ≤ n ∧ n < 0xDC00 then parseLowSurrogate n rest
        else if 0xDC00 ≤ n ∧ n < 0xE000 then none
        else some (Char.ofNat n, rest)
    else if c = '"' then some ('"', rest)
    else if c = '\\' then some ('\\', rest)
    else if c = '/' then some ('/', rest)
    else if c = 'b' then some (Char.ofNat 8, rest)
    else if c = 'f' then some (Char.ofNat 12, rest)
    else if c = 'n' then some (Char.ofNat 10, rest)
    else if c = 'r' then some (Char.ofNat 13, rest)
    else if c = 't' then some (Char.ofNat 9, rest)
    else none

/-- The rest of a string, after the opening quote. -/
def parseChars : Nat → List Char → Option (List Char × List Char)
  | 0, _ => none
  | _, [] => none
  | fuel + 1, c :: rest =>
    if c = '"' then some ([], rest)
    else if c = '\\' then
      match parseEscape rest with
      | none => none
      | some (e, rest) => (parseChars fuel rest).map fun (cs, rest) => (e :: cs, rest)
    else if c.toNat < 32 then none
    else (parseChars fuel rest).map fun (cs, rest) => (c :: cs, rest)

def isDigit (c : Char) : Bool := decide ('0' ≤ c ∧ c ≤ '9')

def isNumberChar (c : Char) : Bool :=
  isDigit c || c == '-' || c == '+' || c == '.' || c == 'e' || c == 'E'

/-- `-? (0 | [1-9][0-9]*) (. [0-9]+)? ([eE] [+-]? [0-9]+)?` -/
def isNumber (text : List Char) : Bool :=
  let text := if text.head? = some '-' then text.tail else text
  let int := text.takeWhile isDigit
  let text := text.dropWhile isDigit
  let intOk := !int.isEmpty && (int.length == 1 || int.head? != some '0')
  let (fracOk, text) :=
    if text.head? = some '.' then
      (!(text.tail.takeWhile isDigit).isEmpty, text.tail.dropWhile isDigit)
    else (true, text)
  let expOk :=
    if text.head? = some 'e' ∨ text.head? = some 'E' then
      let text := text.tail
      let digits := if text.head? = some '+' ∨ text.head? = some '-' then text.tail else text
      !digits.isEmpty && digits.all isDigit
    else text.isEmpty
  intOk && fracOk && expOk

/-- The given word, and then the rest of the text. -/
def expect (word : List Char) (v : Value) (text : List Char) : Option (Value × List Char) :=
  if word.isPrefixOf text then some (v, text.drop word.length) else none

mutual

def parseValue : Nat → List Char → Option (Value × List Char)
  | 0, _ => none
  | fuel + 1, text =>
    match skipSpaces text with
    | [] => none
    | c :: rest =>
      if c = '"' then (parseChars rest.length rest).map fun (s, rest) => (.str (.ofList s), rest)
      else if c = '[' then
        if (skipSpaces rest).head? = some ']' then some (.arr [], (skipSpaces rest).tail)
        else (parseItems fuel rest).map fun (vs, rest) => (.arr vs, rest)
      else if c = '{' then
        if (skipSpaces rest).head? = some '}' then some (.obj [], (skipSpaces rest).tail)
        else (parseMembers fuel rest).map fun (ms, rest) => (.obj ms, rest)
      else if c = 'n' then expect "ull".toList .null rest
      else if c = 't' then expect "rue".toList (.bool true) rest
      else if c = 'f' then expect "alse".toList (.bool false) rest
      else
        -- The longest run of number characters. What may follow a number is not one of them.
        let lexeme := (c :: rest).takeWhile isNumberChar
        if isNumber lexeme then some (.num lexeme, (c :: rest).dropWhile isNumberChar) else none

/-- The items of an array, from the first of them to the closing bracket. -/
def parseItems : Nat → List Char → Option (List Value × List Char)
  | 0, _ => none
  | fuel + 1, text =>
    match parseValue fuel text with
    | none => none
    | some (v, rest) =>
      match skipSpaces rest with
      | [] => none
      | c :: rest =>
        if c = ',' then (parseItems fuel rest).map fun (vs, rest) => (v :: vs, rest)
        else if c = ']' then some ([v], rest)
        else none

def parseMembers : Nat → List Char → Option (List (String × Value) × List Char)
  | 0, _ => none
  | fuel + 1, text =>
    match skipSpaces text with
    | [] => none
    | q :: rest =>
      if q ≠ '"' then none
      else
        match parseChars rest.length rest with
        | none => none
        | some (key, rest) =>
          match skipSpaces rest with
          | [] => none
          | c :: rest =>
            if c ≠ ':' then none
            else
              match parseValue fuel rest with
              | none => none
              | some (v, rest) =>
                match skipSpaces rest with
                | [] => none
                | c :: rest =>
                  if c = ',' then
                    (parseMembers fuel rest).map fun (ms, rest) => ((.ofList key, v) :: ms, rest)
                  else if c = '}' then some ([(.ofList key, v)], rest)
                  else none

end

/-- One value with spaces around it. Every call consumes text, so its length is fuel enough. -/
def parse (text : List Char) : Option Value :=
  match parseValue text.length text with
  | some (v, rest) => if (skipSpaces rest).isEmpty then some v else none
  | none => none

/-! ## Strings are read back -/

theorem hexValue_hexDigit : ∀ n < 16, hexValue (hexDigit n) = some n := by decide

theorem parseEscape_control (n : Nat) (rest : List Char) (h : n < 32) :
    parseEscape ('u' :: '0' :: '0' :: hexDigit (n / 16) :: hexDigit (n % 16) :: rest) =
      some (Char.ofNat n, rest) := by
  have hzero : hexValue '0' = some 0 := by decide
  have hhigh := hexValue_hexDigit (n / 16) (by omega)
  have hlow := hexValue_hexDigit (n % 16) (by omega)
  have hn : ((0 * 16 + 0) * 16 + n / 16) * 16 + n % 16 = n := by omega
  simp only [parseEscape, parseHex4, hzero, hhigh, hlow, hn, if_true]
  rw [if_neg (by omega), if_neg (by omega)]

theorem parseChars_escapeChar (c : Char) (fuel : Nat) (rest : List Char) :
    parseChars (fuel + 1) (escapeChar c ++ rest) =
      (parseChars fuel rest).map fun (cs, rest) => (c :: cs, rest) := by
  have hchar : ∀ n, c.toNat = n → Char.ofNat n = c := fun n h => by rw [← h, Char.ofNat_toNat]
  unfold escapeChar
  split_ifs with hquote hslash hb ht hn hf hr hcontrol
  · subst hquote; simp [parseChars, parseEscape]
  · subst hslash; simp [parseChars, parseEscape]
  · rw [← hchar 8 hb]; simp [parseChars, parseEscape]
  · rw [← hchar 9 ht]; simp [parseChars, parseEscape]
  · rw [← hchar 10 hn]; simp [parseChars, parseEscape]
  · rw [← hchar 12 hf]; simp [parseChars, parseEscape]
  · rw [← hchar 13 hr]; simp [parseChars, parseEscape]
  · have hread := parseEscape_control c.toNat rest hcontrol
    rw [Char.ofNat_toNat] at hread
    simp [parseChars, hread]
  · simp [parseChars, hquote, hslash, hcontrol]

theorem parseChars_flatMap (cs : List Char) (fuel : Nat) (rest : List Char)
    (hfuel : cs.length < fuel) :
    parseChars fuel (cs.flatMap escapeChar ++ '"' :: rest) = some (cs, rest) := by
  induction cs generalizing fuel with
  | nil =>
    obtain ⟨fuel, rfl⟩ : ∃ n, fuel = n + 1 := ⟨fuel - 1, by simp at hfuel; omega⟩
    simp [parseChars]
  | cons c cs ih =>
    obtain ⟨fuel, rfl⟩ : ∃ n, fuel = n + 1 := ⟨fuel - 1, by simp at hfuel; omega⟩
    rw [List.flatMap_cons, List.append_assoc, parseChars_escapeChar, ih fuel (by simpa using hfuel)]
    rfl

theorem length_le_flatMap (cs : List Char) : cs.length ≤ (cs.flatMap escapeChar).length := by
  induction cs with
  | nil => simp
  | cons c cs ih =>
    have hone : 1 ≤ (escapeChar c).length := by
      unfold escapeChar
      split_ifs <;> simp
    simp only [List.flatMap_cons, List.length_append, List.length_cons]
    omega

/-- The quote has been read. The rest of the string is read back with the fuel it is given. -/
theorem parseChars_string (s : String) (rest : List Char) :
    parseChars (s.toList.flatMap escapeChar ++ '"' :: rest).length
      (s.toList.flatMap escapeChar ++ '"' :: rest) = some (s.toList, rest) := by
  apply parseChars_flatMap
  have hle := length_le_flatMap s.toList
  simp only [List.length_append, List.length_cons]
  omega

/-! ## Values are read back -/

/-- Every number in the value is written as one. -/
inductive Valid : Value → Prop where
  | null : Valid .null
  | bool (b : Bool) : Valid (.bool b)
  | num (text : List Char) (hnumber : isNumber text = true)
      (hchars : ∀ c ∈ text, isNumberChar c = true) : Valid (.num text)
  | str (s : String) : Valid (.str s)
  | arr (items : List Value) (hitems : ∀ v ∈ items, Valid v) : Valid (.arr items)
  | obj (members : List (String × Value)) (hmembers : ∀ m ∈ members, Valid m.2) :
      Valid (.obj members)

/-! ## Numbers in decimal -/

theorem head_toDigits_ne_zero {n : Nat} (h : 0 < n) : (Nat.toDigits 10 n).head? ≠ some '0' := by
  induction n using Nat.strongRecOn with
  | ind n ih =>
    by_cases hn : n < 10
    · rw [Nat.toDigits_of_lt_base hn]
      have hdigits : ∀ m < 10, 0 < m → [m.digitChar].head? ≠ some '0' := by decide
      exact hdigits n hn h
    · rw [Nat.toDigits_of_base_le (by omega) (by omega)]
      have hhead := ih (n / 10) (by omega) (by omega)
      cases hdigits : Nat.toDigits 10 (n / 10) with
      | nil => exact absurd hdigits Nat.toDigits_ne_nil
      | cons c digits =>
        rw [hdigits] at hhead
        exact hhead

theorem isDigit_of_mem_toDigits {n : Nat} : ∀ c ∈ Nat.toDigits 10 n, isDigit c = true := by
  intro c hc
  have hdigit := Nat.isDigit_of_mem_toDigits (by omega) (by omega) hc
  simpa [Char.isDigit, isDigit, Char.le_def] using hdigit

theorem isNumber_toDigits (n : Nat) : isNumber (Nat.toDigits 10 n) = true := by
  have htake : (Nat.toDigits 10 n).takeWhile isDigit = Nat.toDigits 10 n :=
    List.takeWhile_eq_self_iff.mpr isDigit_of_mem_toDigits
  have hdrop : (Nat.toDigits 10 n).dropWhile isDigit = [] :=
    List.dropWhile_eq_nil_iff.mpr isDigit_of_mem_toDigits
  have hminus : (Nat.toDigits 10 n).head? ≠ some '-' := by
    intro h
    exact absurd (isDigit_of_mem_toDigits '-' (List.mem_of_head? h)) (by decide)
  have hnonempty : (Nat.toDigits 10 n).isEmpty = false := by
    cases hdigits : Nat.toDigits 10 n with
    | nil => exact absurd hdigits Nat.toDigits_ne_nil
    | cons => rfl
  have hleading : ((Nat.toDigits 10 n).length == 1 || (Nat.toDigits 10 n).head? != some '0') =
      true := by
    rcases Nat.eq_zero_or_pos n with rfl | hpos
    · rfl
    · simp [head_toDigits_ne_zero hpos]
  unfold isNumber
  simp only [if_neg hminus, htake, hdrop, hnonempty, hleading]
  rfl

theorem valid_toDigits (n : Nat) : Valid (.num (Nat.toDigits 10 n)) := by
  refine .num _ (isNumber_toDigits n) fun c hc => ?_
  simp [isNumberChar, isDigit_of_mem_toDigits c hc]

/-! ## Values are read back, by induction on them -/

variable {c : Char}

theorem skipSpaces_cons (h : isSpace c = false) (rest : List Char) :
    skipSpaces (c :: rest) = c :: rest := by
  simp [skipSpaces, h]

theorem number_ne_nil {text : List Char} (h : isNumber text = true) : text ≠ [] := by
  rintro rfl
  exact absurd h (by decide)

theorem isNumberChar_ne {d : Char} (h : isNumberChar c = true) (hd : isNumberChar d = false) :
    c ≠ d := by
  rintro rfl
  rw [h] at hd
  cases hd

theorem isSpace_of_isNumberChar (h : isNumberChar c = true) : isSpace c = false := by
  have hne := fun d hd => isNumberChar_ne (d := d) h hd
  simp [isSpace, hne ' ' (by decide), hne '\n' (by decide), hne '\t' (by decide),
    hne '\r' (by decide)]

variable {v : Value}

/-- A value starts with neither a space nor a closing bracket. -/
theorem render_head (h : Valid v) :
    ∃ c rest, render v = c :: rest ∧ isSpace c = false ∧ c ≠ ']' := by
  cases h with
  | null => exact ⟨'n', "ull".toList, rfl, rfl, by decide⟩
  | bool b =>
    cases b with
    | true => exact ⟨'t', "rue".toList, rfl, rfl, by decide⟩
    | false => exact ⟨'f', "alse".toList, rfl, rfl, by decide⟩
  | num text hnumber hchars =>
    cases text with
    | nil => exact absurd rfl (number_ne_nil hnumber)
    | cons c rest =>
      have hc := hchars c List.mem_cons_self
      exact ⟨c, rest, rfl, isSpace_of_isNumberChar hc, isNumberChar_ne hc (by decide)⟩
  | str s => exact ⟨'"', _, rfl, rfl, by decide⟩
  | arr items =>
    cases items with
    | nil => exact ⟨'[', _, rfl, rfl, by decide⟩
    | cons v vs => exact ⟨'[', _, rfl, rfl, by decide⟩
  | obj members =>
    cases members with
    | nil => exact ⟨'{', _, rfl, rfl, by decide⟩
    | cons m ms => exact ⟨'{', _, rfl, rfl, by decide⟩

/-- The text of a value is read back, whatever follows that does not prolong a number. -/
def ReadsBack (v : Value) : Prop :=
  ∀ fuel rest, (render v).length ≤ fuel → (∀ c ∈ rest.head?, isNumberChar c = false) →
    parseValue fuel (render v ++ rest) = some (v, rest)

theorem length_pos_of_valid (h : Valid v) : 0 < (render v).length := by
  obtain ⟨c, rest, hrender, -⟩ := render_head h
  simp [hrender]

theorem parseItems_render (v : Value) (vs : List Value) (fuel : Nat) (rest : List Char)
    (hv : Valid v ∧ ReadsBack v) (hvs : ∀ w ∈ vs, Valid w ∧ ReadsBack w)
    (hfuel : (render v).length + (renderItems vs).length ≤ fuel) :
    parseItems fuel (render v ++ (renderItems vs ++ rest)) = some (v :: vs, rest) := by
  induction vs generalizing v fuel with
  | nil =>
    simp only [renderItems, List.length_singleton] at hfuel
    obtain ⟨fuel, rfl⟩ : ∃ n, fuel = n + 1 := ⟨fuel - 1, by omega⟩
    have hread := hv.2 fuel (']' :: rest) (by omega) (by simp; decide)
    simp only [renderItems, List.singleton_append, parseItems, hread]
    rw [skipSpaces_cons (by decide)]
    simp
  | cons w ws ih =>
    have hpos := length_pos_of_valid hv.1
    simp only [renderItems, List.length_cons, List.length_append] at hfuel
    obtain ⟨fuel, rfl⟩ : ∃ n, fuel = n + 1 := ⟨fuel - 1, by omega⟩
    have hread := hv.2 fuel (',' :: (render w ++ (renderItems ws ++ rest))) (by omega)
      (by simp; decide)
    have hrest := ih w fuel (hvs w List.mem_cons_self)
      (fun u hu => hvs u (List.mem_cons_of_mem _ hu)) (by omega)
    simp only [renderItems, List.cons_append, List.append_assoc, parseItems, hread]
    rw [skipSpaces_cons (by decide)]
    simp [hrest]

theorem parseMembers_render (key : String) (v : Value) (ms : List (String × Value)) (fuel : Nat)
    (rest : List Char) (hv : Valid v ∧ ReadsBack v) (hms : ∀ m ∈ ms, Valid m.2 ∧ ReadsBack m.2)
    (hfuel : (render v).length + (renderMembers ms).length ≤ fuel) :
    parseMembers fuel (renderString key ++ (':' :: render v ++ (renderMembers ms ++ rest))) =
      some ((key, v) :: ms, rest) := by
  induction ms generalizing key v fuel with
  | nil =>
    simp only [renderMembers, List.length_singleton] at hfuel
    obtain ⟨fuel, rfl⟩ : ∃ n, fuel = n + 1 := ⟨fuel - 1, by omega⟩
    have hread := hv.2 fuel ('}' :: rest) (by omega) (by simp; decide)
    simp only [renderMembers, renderString, List.cons_append, List.append_assoc, List.nil_append,
      parseMembers]
    rw [skipSpaces_cons (by decide)]
    simp only [ne_eq, not_true_eq_false, if_false]
    rw [parseChars_string]
    simp only []
    rw [skipSpaces_cons (by decide)]
    simp only [if_false, not_true_eq_false, hread]
    rw [skipSpaces_cons (by decide)]
    simp
  | cons m ms ih =>
    obtain ⟨key', w⟩ := m
    have hpos := length_pos_of_valid hv.1
    simp only [renderMembers, List.length_cons, List.length_append] at hfuel
    obtain ⟨fuel, rfl⟩ : ∃ n, fuel = n + 1 := ⟨fuel - 1, by omega⟩
    have hread := hv.2 fuel
      (',' :: (renderString key' ++ (':' :: render w ++ (renderMembers ms ++ rest)))) (by omega)
      (by simp; decide)
    have hrest := ih key' w fuel (hms _ List.mem_cons_self)
      (fun u hu => hms u (List.mem_cons_of_mem _ hu)) (by omega)
    simp only [renderMembers, renderString, List.cons_append, List.append_assoc, List.nil_append,
      parseMembers] at hread hrest ⊢
    rw [skipSpaces_cons (by decide)]
    simp only [ne_eq, not_true_eq_false, if_false]
    rw [parseChars_string]
    simp only []
    rw [skipSpaces_cons (by decide)]
    simp only [if_false, not_true_eq_false, hread]
    rw [skipSpaces_cons (by decide)]
    simp [hrest]

theorem readsBack_num (text : List Char) (hnumber : isNumber text = true)
    (hchars : ∀ c ∈ text, isNumberChar c = true) : ReadsBack (.num text) := by
  intro fuel rest hfuel hrest
  have htake : (text ++ rest).takeWhile isNumberChar = text := by
    rw [List.takeWhile_append_of_pos hchars]
    cases rest with
    | nil => simp
    | cons c rest => simp [hrest c rfl]
  have hdrop : (text ++ rest).dropWhile isNumberChar = rest := by
    rw [List.dropWhile_append_of_pos hchars]
    cases rest with
    | nil => simp
    | cons c rest => simp [hrest c rfl]
  cases text with
  | nil => exact absurd rfl (number_ne_nil hnumber)
  | cons c text =>
    have hc := hchars c List.mem_cons_self
    have hne := fun d hd => isNumberChar_ne (d := d) hc hd
    obtain ⟨fuel, rfl⟩ : ∃ n, fuel = n + 1 := ⟨fuel - 1, by simp [render] at hfuel; omega⟩
    simp only [render, List.cons_append, parseValue] at htake hdrop ⊢
    rw [skipSpaces_cons (isSpace_of_isNumberChar hc)]
    simp only [hne '"' (by decide), hne '[' (by decide), hne '{' (by decide), hne 'n' (by decide),
      hne 't' (by decide), hne 'f' (by decide), if_false, htake, hdrop, hnumber, if_true]

theorem readsBack_of_valid (h : Valid v) : ReadsBack v := by
  induction h with
  | num text hnumber hchars => exact readsBack_num text hnumber hchars
  | null =>
    intro fuel rest hfuel hrest
    obtain ⟨fuel, rfl⟩ : ∃ n, fuel = n + 1 := ⟨fuel - 1, by simp [render] at hfuel; omega⟩
    simp [render, parseValue, skipSpaces, isSpace, expect]
  | bool b =>
    intro fuel rest hfuel hrest
    cases b <;>
      obtain ⟨fuel, rfl⟩ : ∃ n, fuel = n + 1 := ⟨fuel - 1, by simp [render] at hfuel; omega⟩
    · simp [render, parseValue, skipSpaces, isSpace, expect]
    · simp [render, parseValue, skipSpaces, isSpace, expect]
  | str s =>
    intro fuel rest hfuel hrest
    obtain ⟨fuel, rfl⟩ : ∃ n, fuel = n + 1 :=
      ⟨fuel - 1, by simp [render, renderString] at hfuel; omega⟩
    simp only [render, renderString, List.cons_append, List.append_assoc, List.nil_append, parseValue]
    rw [skipSpaces_cons (by decide)]
    simp only [if_true, parseChars_string, Option.map_some, String.ofList_toList]
  | arr items hitems ih =>
    intro fuel rest hfuel hrest
    have hall := fun v hv => And.intro (hitems v hv) (ih v hv)
    cases items with
    | nil =>
      obtain ⟨fuel, rfl⟩ : ∃ n, fuel = n + 1 := ⟨fuel - 1, by simp [render] at hfuel; omega⟩
      simp [render, parseValue, skipSpaces, isSpace]
    | cons v vs =>
      simp only [render, List.length_cons, List.length_append] at hfuel
      obtain ⟨fuel, rfl⟩ : ∃ n, fuel = n + 1 := ⟨fuel - 1, by omega⟩
      obtain ⟨c, text, hrender, hspace, hclose⟩ := render_head (hitems v List.mem_cons_self)
      have hread := parseItems_render v vs fuel rest (hall v List.mem_cons_self)
        (fun w hw => hall w (List.mem_cons_of_mem _ hw)) (by omega)
      have hfirst : ¬(skipSpaces (render v ++ (renderItems vs ++ rest))).head? = some ']' := by
        rw [hrender, List.cons_append, skipSpaces_cons hspace]
        simpa using hclose
      simp only [render, List.cons_append, List.append_assoc, parseValue]
      rw [skipSpaces_cons (by decide)]
      simp only [Char.reduceEq, if_false, if_true, hfirst, hread, Option.map_some]
  | obj members hmembers ih =>
    intro fuel rest hfuel hrest
    have hall := fun m hm => And.intro (hmembers m hm) (ih m hm)
    cases members with
    | nil =>
      obtain ⟨fuel, rfl⟩ : ∃ n, fuel = n + 1 := ⟨fuel - 1, by simp [render] at hfuel; omega⟩
      simp [render, parseValue, skipSpaces, isSpace]
    | cons m ms =>
      obtain ⟨key, v⟩ := m
      simp only [render, List.length_cons, List.length_append] at hfuel
      obtain ⟨fuel, rfl⟩ : ∃ n, fuel = n + 1 := ⟨fuel - 1, by omega⟩
      have hread := parseMembers_render key v ms fuel rest (hall _ List.mem_cons_self)
        (fun w hw => hall w (List.mem_cons_of_mem _ hw)) (by omega)
      have hfirst : ¬(skipSpaces (renderString key ++
          (':' :: render v ++ (renderMembers ms ++ rest)))).head? = some '}' := by
        simp only [renderString, List.cons_append]
        rw [skipSpaces_cons (by decide)]
        simp
      simp only [render, List.cons_append, List.append_assoc, parseValue] at hread hfirst ⊢
      rw [skipSpaces_cons (by decide)]
      simp only [Char.reduceEq, if_false, if_true, hfirst, hread, Option.map_some]

/-- What is written is read back as it was. -/
theorem parse_render (h : Valid v) : parse (render v) = some v := by
  have hread := readsBack_of_valid h (render v).length [] (Nat.le_refl _) (by simp)
  rw [List.append_nil] at hread
  simp [parse, hread, skipSpaces]

/-! ## Sizes in bytes -/

def byteSize (text : List Char) : Nat := (String.ofList text).utf8ByteSize

theorem byteSize_append (a b : List Char) : byteSize (a ++ b) = byteSize a + byteSize b := by
  rw [byteSize, String.ofList_append, String.utf8ByteSize_append]
  rfl

theorem byteSize_cons (c : Char) (text : List Char) :
    byteSize (c :: text) = c.utf8Size + byteSize text := by
  have hsingle : byteSize [c] = c.utf8Size := by
    rw [byteSize, ← String.singleton_eq_ofList, String.utf8ByteSize_singleton]
  rw [← hsingle]
  exact byteSize_append [c] text

theorem byteSize_nil : byteSize [] = 0 := rfl

theorem byteSize_toList (s : String) : byteSize s.toList = s.utf8ByteSize := by
  rw [byteSize, String.ofList_toList]

/-- No character needs an escape. -/
def Plain (s : String) : Prop := ∀ c ∈ s.toList, escapeChar c = [c]

theorem byteSize_renderString {s : String} (h : Plain s) :
    byteSize (renderString s) = s.utf8ByteSize + 2 := by
  have hflat : s.toList.flatMap escapeChar = s.toList := by
    have hplain : ∀ cs : List Char, (∀ c ∈ cs, escapeChar c = [c]) → cs.flatMap escapeChar = cs := by
      intro cs hcs
      induction cs with
      | nil => rfl
      | cons c cs ih =>
        rw [List.flatMap_cons, hcs c List.mem_cons_self,
          ih fun d hd => hcs d (List.mem_cons_of_mem _ hd)]
        rfl
    exact hplain s.toList h
  have hquote : Char.utf8Size '"' = 1 := by decide
  simp only [renderString, hflat, List.cons_append, byteSize_cons, byteSize_append, byteSize_toList,
    byteSize_nil, hquote]
  omega

theorem byteSize_renderItems {strings : List String} (h : ∀ s ∈ strings, Plain s) :
    byteSize (renderItems (strings.map .str)) =
      (strings.map fun s => s.utf8ByteSize + 3).sum + 1 := by
  induction strings with
  | nil => decide
  | cons s strings ih =>
    have hcomma : Char.utf8Size ',' = 1 := by decide
    rw [List.map_cons, renderItems, render, List.cons_append, byteSize_cons, byteSize_append,
      byteSize_renderString (h s List.mem_cons_self),
      ih fun t ht => h t (List.mem_cons_of_mem _ ht), hcomma, List.map_cons, List.sum_cons]
    omega

/-- An array of strings takes three bytes for each, less the comma of the first. -/
theorem byteSize_strings {strings : List String} (h : ∀ s ∈ strings, Plain s) :
    byteSize (render (.arr (strings.map .str))) =
      2 + ((strings.map fun s => s.utf8ByteSize + 3).sum - 1) := by
  cases strings with
  | nil => decide
  | cons s strings =>
    have hopen : Char.utf8Size '[' = 1 := by decide
    rw [List.map_cons, render, render, List.cons_append, byteSize_cons, byteSize_append,
      byteSize_renderString (h s List.mem_cons_self),
      byteSize_renderItems fun t ht => h t (List.mem_cons_of_mem _ ht), hopen, List.map_cons,
      List.sum_cons]
    omega

theorem byteSize_renderMembers {members : List (String × String)}
    (h : ∀ m ∈ members, Plain m.1 ∧ Plain m.2) :
    byteSize (renderMembers (members.map fun m => (m.1, .str m.2))) =
      (members.map fun m => m.1.utf8ByteSize + m.2.utf8ByteSize + 6).sum + 1 := by
  induction members with
  | nil => decide
  | cons m members ih =>
    have hcomma : Char.utf8Size ',' = 1 := by decide
    have hcolon : Char.utf8Size ':' = 1 := by decide
    obtain ⟨hkey, hvalue⟩ := h m List.mem_cons_self
    simp only [List.map_cons, renderMembers, render, List.cons_append, List.append_assoc,
      byteSize_cons, byteSize_append, byteSize_renderString hkey,
      byteSize_renderString hvalue, ih fun t ht => h t (List.mem_cons_of_mem _ ht), hcomma, hcolon,
      List.sum_cons]
    omega

/-- An object of strings takes six bytes for each member, less the comma of the first. -/
theorem byteSize_stringMembers {members : List (String × String)}
    (h : ∀ m ∈ members, Plain m.1 ∧ Plain m.2) :
    byteSize (render (.obj (members.map fun m => (m.1, .str m.2)))) =
      2 + ((members.map fun m => m.1.utf8ByteSize + m.2.utf8ByteSize + 6).sum - 1) := by
  cases members with
  | nil => decide
  | cons m members =>
    have hopen : Char.utf8Size '{' = 1 := by decide
    have hcolon : Char.utf8Size ':' = 1 := by decide
    obtain ⟨hkey, hvalue⟩ := h m List.mem_cons_self
    simp only [List.map_cons, render, List.cons_append, List.append_assoc, byteSize_cons,
      byteSize_append, byteSize_renderString hkey, byteSize_renderString hvalue,
      byteSize_renderMembers fun t ht => h t (List.mem_cons_of_mem _ ht), hopen, hcolon,
      List.sum_cons]
    omega

end Json
