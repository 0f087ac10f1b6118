import Vingilot.Lib.Codes
import Vingilot.Lib.Search
import Vingilot.Tunnel.Directory

/-!
# The sweep of tmux sessions (`vingilot_pty/sweep.rs`, `vingilot_pty/tmux.rs`)

A session is named after what it was opened for, and the sweep reads that back out of the names. The
id of a worktree has its path in hex, where the sweep expects the path itself.
-/

namespace Vingilot.Pty

/-! ## Names of sessions -/

def sessionPrefix : List Char := "vingilot_".toList

def isNameChar (c : Char) : Bool := c.isAlphanum || c == '_'

def escapeByte (b : UInt8) : List Char :=
  if isNameChar (Char.ofNat b.toNat) then [Char.ofNat b.toNat]
  else ['-', Json.hexDigit (b.toNat / 16), Json.hexDigit (b.toNat % 16)]

def sessionName (id : List Char) : List Char := sessionPrefix ++ (Codes.utf8 id).flatMap escapeByte

/-- `u8::from_str_radix` with two characters. The first one may be a plus sign. -/
def fromStrRadix (a b : Char) : Option Nat :=
  match Json.hexValue a, Json.hexValue b with
  | some high, some low => some (high * 16 + low)
  | none, some low => if a = '+' then some low else none
  | _, none => none

/-- The loop of `session_id`. -/
def readBytes : List Char → Option (List UInt8)
  | [] => some []
  | '-' :: a :: b :: rest => (fromStrRadix a b).bind fun n => (readBytes rest).map (.ofNat n :: ·)
  | c :: rest => if isNameChar c then (readBytes rest).map (.ofNat c.toNat :: ·) else none

def sessionId (name : List Char) : Option (List Char) :=
  (List.isPrefixOf? sessionPrefix name).bind fun rest => (readBytes rest).bind fun bytes =>
    (String.fromUTF8? bytes.toByteArray).map String.toList

def exactTarget (id : List Char) : List Char := '=' :: sessionName id ++ [':']

def localPrefix : List Char := "local:".toList

def localBindingId (path : List Char) : List Char :=
  localPrefix ++ Tunnel.hexEncode (Codes.utf8 path)

def sessionIdFor (bindingId : List Char) (n : Nat) : List Char :=
  bindingId ++ '#' :: Nat.toDigits 10 n

/-! ## Verdicts -/

/-- A path by its components. A dot counts at the front of a relative path only. -/
structure Path where
  isAbsolute : Bool
  names : List (List Char)

def Path.new (text : List Char) : Path :=
  let parts := text.splitOn '/'
  ⟨text.head? = some '/', (parts.take 1).filter (· ≠ []) ++
    (parts.drop 1).filter fun part => part ≠ [] ∧ part ≠ ['.']⟩

def Path.parent (p : Path) : Option Path :=
  if p.names = [] then none else some { p with names := p.names.dropLast }

/-- `rsplit_once` is `splitOnce` from behind. -/
def worktreePath (id : List Char) : Option (List Char) :=
  let binding :=
    match Search.splitOnce '#' id.reverse with
    | some (ordinal, left) => if ordinal ≠ [] ∧ ordinal.all Char.isDigit then left.reverse else id
    | none => id
  (List.isPrefixOf? localPrefix binding).filter (· ≠ [])

inductive Verdict where
  | notOurs
  | alive
  | unreadable
  | orphan
deriving DecidableEq

variable (onDisk : Path → Bool)

def verdict (name : List Char) : Verdict :=
  match sessionId name with
  | none => .notOurs
  | some id =>
    if sessionName id ≠ name then .notOurs
    else
      match worktreePath id with
      | none => .notOurs
      | some path =>
        if onDisk (.new path) then .alive
        else if (Path.new path).parent.any onDisk then .orphan
        else .unreadable

def orphans (names : List (List Char)) : List (List Char) :=
  (names.filter fun name => verdict onDisk name = .orphan).filterMap sessionId

/-! ## Names are read back -/

theorem escapes_of_lt : ∀ n < 256, if isNameChar (Char.ofNat n) then
    Char.ofNat n ≠ '-' ∧ (Char.ofNat n).toNat = n
  else fromStrRadix (Json.hexDigit (n / 16)) (Json.hexDigit (n % 16)) = some n := by
  decide +kernel

theorem readBytes_escapeByte (b : UInt8) (rest : List Char) :
    readBytes (escapeByte b ++ rest) = (readBytes rest).map (b :: ·) := by
  have hb := escapes_of_lt b.toNat b.toNat_lt
  unfold escapeByte
  split_ifs at hb ⊢ with hname
  · rw [List.singleton_append, readBytes, if_pos hname, hb.2, UInt8.ofNat_toNat]
    exact fun _ _ _ hminus => absurd hminus hb.1
  · simp only [List.cons_append, List.nil_append, readBytes, hb, Option.bind_some,
      UInt8.ofNat_toNat]

theorem sessionId_sessionName (id : List Char) : sessionId (sessionName id) = some id := by
  have hbytes (bytes : List UInt8) : readBytes (bytes.flatMap escapeByte) = some bytes := by
    induction bytes with
    | nil => rfl
    | cons b bytes ih => rw [List.flatMap_cons, readBytes_escapeByte, ih, Option.map_some]
  have hprefix : List.isPrefixOf? sessionPrefix (sessionName id) =
      some ((Codes.utf8 id).flatMap escapeByte) := by
    rw [List.isPrefixOf?_eq_some_iff_append_eq]
    rfl
  have hutf8 : (Codes.utf8 id).toByteArray = (String.ofList id).toUTF8 := rfl
  rw [sessionId, hprefix, Option.bind_some, hbytes, Option.bind_some, hutf8, Text.fromUTF8?_toUTF8,
    Option.map_some, String.toList_ofList]

theorem sessionName_injective : Function.Injective sessionName := by
  intro id id' h
  simpa only [sessionId_sessionName, Option.some.injEq] using congrArg sessionId h

/-! ## What is swept -/

variable {onDisk}

theorem verdict_eq_orphan {name : List Char} : verdict onDisk name = .orphan ↔
    ∃ id path, sessionName id = name ∧ worktreePath id = some path ∧
      onDisk (.new path) = false ∧ (Path.new path).parent.any onDisk = true := by
  constructor
  · intro h
    unfold verdict at h
    split at h
    · cases h
    · next id hid =>
      split_ifs at h with hname
      split at h
      · cases h
      · next path hpath =>
        split_ifs at h with halive hparent
        exact ⟨id, path, not_not.mp hname, hpath, by simpa using halive, hparent⟩
  · rintro ⟨id, path, rfl, hpath, hgone, hparent⟩
    simp [verdict, sessionId_sessionName, hpath, hgone, hparent]

theorem mem_orphans {names : List (List Char)} {id : List Char} : id ∈ orphans onDisk names ↔
    sessionName id ∈ names ∧ verdict onDisk (sessionName id) = .orphan := by
  unfold orphans
  simp only [List.mem_filterMap, List.mem_filter, decide_eq_true_eq]
  constructor
  · rintro ⟨name, ⟨hmem, horphan⟩, hid⟩
    obtain ⟨id', path, rfl, -⟩ := verdict_eq_orphan.mp horphan
    rw [sessionId_sessionName] at hid
    cases hid
    exact ⟨hmem, horphan⟩
  · rintro ⟨hmem, horphan⟩
    exact ⟨_, ⟨hmem, horphan⟩, sessionId_sessionName id⟩

/-- Every session is ended by the name it was listed under, and only when the path it was opened for
is gone from a directory that is there. -/
theorem sweep_exact (onDisk : Path → Bool) (names : List (List Char)) :
    (orphans onDisk names).map exactTarget = (names.filter fun name =>
      verdict onDisk name = .orphan).map (fun name => '=' :: name ++ [':']) ∧
    ∀ id, id ∈ orphans onDisk names ↔ sessionName id ∈ names ∧ ∃ path,
      worktreePath id = some path ∧ onDisk (.new path) = false ∧
        (Path.new path).parent.any onDisk = true := by
  constructor
  · induction names with
    | nil => rfl
    | cons name names ih =>
      unfold orphans at ih ⊢
      rw [List.filter_cons]
      split_ifs with horphan
      · obtain ⟨id, path, rfl, -⟩ := verdict_eq_orphan.mp (by simpa using horphan)
        rw [List.filterMap_cons, sessionId_sessionName]
        exact congrArg _ ih
      · exact ih
  · intro id
    rw [mem_orphans, verdict_eq_orphan]
    refine and_congr_right fun _ => ⟨?_, fun ⟨path, h⟩ => ⟨id, path, rfl, h⟩⟩
    rintro ⟨id', path, hname, h⟩
    cases sessionName_injective hname
    exact ⟨path, h⟩

/-! ## Tabs of a worktree -/

theorem worktreePath_tab (path : List Char) (n : Nat) :
    worktreePath (sessionIdFor (localBindingId path) n) =
      (some (Tunnel.hexEncode (Codes.utf8 path))).filter (· ≠ []) := by
  have hdigit : ∀ c ∈ Nat.toDigits 10 n, c.isDigit = true := fun c hc =>
    Nat.isDigit_of_mem_toDigits (by decide) (by decide) hc
  have hnot : '#' ∉ (Nat.toDigits 10 n).reverse := fun hmem =>
    absurd (hdigit _ (List.mem_reverse.mp hmem)) (by decide)
  have hordinal : (Nat.toDigits 10 n).reverse ≠ [] ∧
      (Nat.toDigits 10 n).reverse.all Char.isDigit = true := by
    rw [List.all_reverse, List.all_eq_true]
    exact ⟨by simp [Nat.toDigits_ne_nil], hdigit⟩
  have hprefix (hex : List Char) : List.isPrefixOf? localPrefix (localPrefix ++ hex) = some hex :=
    List.isPrefixOf?_eq_some_iff_append_eq.mpr rfl
  rw [worktreePath, sessionIdFor, List.reverse_append, List.reverse_cons, List.append_assoc,
    List.singleton_append, Search.splitOnce_append hnot]
  dsimp only
  rw [if_pos hordinal, List.reverse_reverse, localBindingId, hprefix]

theorem slash_notMem_hexEncode (bytes : List UInt8) : '/' ∉ Tunnel.hexEncode bytes := by
  have hdigit : ∀ n < 16, Json.hexDigit n ≠ '/' := by decide
  intro hmem
  obtain ⟨b, -, hc⟩ := List.mem_flatMap.mp hmem
  have hb : b.toNat < 256 := b.toNat_lt
  rcases List.mem_pair.mp hc with hhigh | hlow
  · exact hdigit _ (by omega) hhigh.symm
  · exact hdigit _ (by omega) hlow.symm

/-- The digits are a path without a directory, so the session of a tab is never ended. -/
theorem tabs_never_swept (onDisk : Path → Bool) (hempty : onDisk (.new []) = false)
    (names : List (List Char)) (path : List Char) (n : Nat) :
    sessionIdFor (localBindingId path) n ∉ orphans onDisk names := by
  rw [mem_orphans, verdict_eq_orphan]
  rintro ⟨-, id, hex, hname, hpath, -, hparent⟩
  cases sessionName_injective hname
  rw [worktreePath_tab, Option.filter_eq_some_iff] at hpath
  obtain ⟨hhex, hne⟩ := hpath
  have hslash : '/' ∉ hex := Option.some.inj hhex ▸ slash_notMem_hexEncode _
  have hnew : Path.new hex = ⟨false, [hex]⟩ := by
    have hhead : hex.head? ≠ some '/' := fun h => hslash (List.mem_of_head? h)
    simp [Path.new, List.splitOn_eq_singleton hslash, hhead, of_decide_eq_true hne]
  have hroot : Path.new [] = ⟨false, []⟩ := rfl
  rw [hnew] at hparent
  rw [hroot] at hempty
  simp [Path.parent, hempty] at hparent

theorem tab_of_removed_worktree_never_swept :
    sessionIdFor (localBindingId "/w/gone".toList) 1 ∉
      orphans (fun path => decide (path.names = ["w".toList]))
        [sessionName (sessionIdFor (localBindingId "/w/gone".toList) 1)] :=
  tabs_never_swept (fun path => decide (path.names = ["w".toList])) (by decide) _ _ _

end Vingilot.Pty
