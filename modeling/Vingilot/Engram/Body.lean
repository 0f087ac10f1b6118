import Vingilot.Engram.Slugs
import Vingilot.Lib.Json
import Vingilot.Lib.Chars

/-!
# The body of an engram

The two kinds of bodies share one JSON shape, and their slug tells them apart. `Json.parse` keeps
the repeats of an object's keys, so the strict reader is a walk over what it returns.
-/

namespace Vingilot.Engram

/-! ## Writing -/

inductive Body where
  /-- `slug == "core"`. -/
  | core (profile : String)
  /-- `slug == "mem/…"`. Without a value it is a tombstone. -/
  | memory (slug : String) (value : Option String)

def Body.slug : Body → String
  | .core _ => "core"
  | .memory slug _ => slug

/-- `\u{:04x}`. -/
def escapeHex (n : Nat) : List Char :=
  ['\\', 'u', Json.hexDigit (n / 4096 % 16), Json.hexDigit (n / 256 % 16),
    Json.hexDigit (n / 16 % 16), Json.hexDigit (n % 16)]

def writeJsonChar (c : Char) : List Char :=
  if c = '"' then ['\\', '"']
  else if c = '\\' then ['\\', '\\']
  else if c.toNat = 0x08 then ['\\', 'b']
  else if c.toNat = 0x0c then ['\\', 'f']
  else if c = '\n' then ['\\', 'n']
  else if c = '\r' then ['\\', 'r']
  else if c = '\t' then ['\\', 't']
  else if c.toNat < 0x20 then escapeHex c.toNat
  else [c]

def writeJsonString (s : String) : List Char := '"' :: s.toList.flatMap writeJsonChar ++ ['"']

def Body.toJsonText (b : Body) : List Char :=
  "\x7b\"slug\":".toList ++ writeJsonString b.slug ++
    (match b with
      | .memory _ (some v) => ",\"value\":".toList ++ writeJsonString v
      | .memory _ none => ",\"value\":null".toList
      | .core profile => ",\"profile\":".toList ++ writeJsonString profile) ++ ['\x7d']

def Body.toJsonBytes (b : Body) : ByteArray := (String.ofList b.toJsonText).toUTF8

/-! ## Reading -/

mutual

def strictValue : Json.Value → Except String Json.Value
  | .arr items => (strictItems items).map .arr
  | .obj members => (strictMembers [] members).map .obj
  | v => .ok v

def strictItems : List Json.Value → Except String (List Json.Value)
  | [] => .ok []
  | v :: vs =>
    match strictValue v with
    | .error key => .error key
    | .ok v => (strictItems vs).map (v :: ·)

def strictMembers (seen : List String) :
    List (String × Json.Value) → Except String (List (String × Json.Value))
  | [] => .ok []
  | (key, v) :: ms =>
    if key ∈ seen then .error key
    else
      match strictValue v with
      | .error key => .error key
      | .ok v => (strictMembers (key :: seen) ms).map ((key, v) :: ·)

end

/-- The reader is done with the text before the walk starts here. A text that is neither well
formed nor free of repeats is refused either way. -/
def parseStrictJson (bytes : ByteArray) : Except EngramError Json.Value :=
  match (String.fromUTF8? bytes).bind fun text => Json.parse text.toList with
  | none => .error (.invalidBody .json)
  | some v =>
    match strictValue v with
    | .error key => .error (.invalidBody (.duplicate key))
    | .ok v => .ok v

def member (name : String) (members : List (String × Json.Value)) : Option Json.Value :=
  (members.find? fun m => m.1 = name).map Prod.snd

def readBody (members : List (String × Json.Value)) : Except EngramError Body :=
  match member "slug" members with
  | some (.str slug) =>
    match validateSlug (bytesOf slug) with
    | .error e => .error e
    | .ok () =>
      if slug = "core" then
        match member "profile" members with
        | some (.str profile) => .ok (.core profile)
        | some _ => .error (.invalidBody (.shape "`profile` is not a string"))
        | none => .error (.invalidBody (.shape "core missing `profile`"))
      else
        match member "value" members with
        | some (.str v) => .ok (.memory slug (some v))
        | some .null => .ok (.memory slug none)
        | some _ => .error (.invalidBody (.shape "`value` is not a string"))
        | none => .error (.invalidBody (.shape "memory missing `value`"))
  | some _ => .error (.invalidBody (.shape "`slug` is not a string"))
  | none => .error (.invalidBody (.shape "missing `slug`"))

def Body.fromJsonBytes (bytes : ByteArray) : Except EngramError Body :=
  match parseStrictJson bytes with
  | .error e => .error e
  | .ok (.obj members) => readBody members
  | .ok _ => .error (.invalidBody (.shape "top-level not an object"))

/-! ## Repeated keys -/

inductive Repeats : Json.Value → Prop
  | here (members : List (String × Json.Value)) (h : ¬ (members.map Prod.fst).Nodup) :
      Repeats (.obj members)
  | item (items : List Json.Value) {v : Json.Value} (hv : v ∈ items) (h : Repeats v) :
      Repeats (.arr items)
  | member (members : List (String × Json.Value)) {m : String × Json.Value} (hm : m ∈ members)
      (h : Repeats m.2) : Repeats (.obj members)

theorem strictItems_ok {items out : List Json.Value} (h : strictItems items = .ok out) :
    ∀ v ∈ items, ∃ v', strictValue v = .ok v' := by
  induction items generalizing out with
  | nil => simp
  | cons v vs ih =>
    unfold strictItems at h
    split at h
    · simp at h
    · rename_i v' hv
      cases hrest : strictItems vs with
      | error key => simp [hrest, Except.map] at h
      | ok rest =>
        intro w hw
        rcases List.mem_cons.mp hw with rfl | hw
        · exact ⟨v', hv⟩
        · exact ih hrest w hw

theorem strictMembers_ok {seen : List String} {members out : List (String × Json.Value)}
    (h : strictMembers seen members = .ok out) :
    (members.map Prod.fst).Nodup ∧
      ∀ m ∈ members, m.1 ∉ seen ∧ ∃ v, strictValue m.2 = .ok v := by
  induction members generalizing seen out with
  | nil => simp
  | cons m ms ih =>
    obtain ⟨key, v⟩ := m
    unfold strictMembers at h
    split_ifs at h with hseen
    split at h
    · simp at h
    · rename_i v' hv
      cases hrest : strictMembers (key :: seen) ms with
      | error key => simp [hrest, Except.map] at h
      | ok rest =>
        obtain ⟨hnodup, hall⟩ := ih hrest
        refine ⟨?_, ?_⟩
        · rw [List.map_cons, List.nodup_cons]
          refine ⟨fun hkey => ?_, hnodup⟩
          obtain ⟨m, hm, hkey⟩ := List.mem_map.mp hkey
          exact (hall m hm).1 (by simp [hkey])
        · intro m hm
          rcases List.mem_cons.mp hm with rfl | hm
          · exact ⟨hseen, v', hv⟩
          · obtain ⟨hfresh, hvalue⟩ := hall m hm
            exact ⟨fun hm => hfresh (List.mem_cons_of_mem _ hm), hvalue⟩

theorem strictValue_of_repeats {v : Json.Value} (h : Repeats v) :
    ∃ key, strictValue v = .error key := by
  induction h with
  | here members hkeys =>
    unfold strictValue
    cases hstrict : strictMembers [] members with
    | error key => exact ⟨key, rfl⟩
    | ok out => exact absurd (strictMembers_ok hstrict).1 hkeys
  | item items hv _ ih =>
    unfold strictValue
    cases hstrict : strictItems items with
    | error key => exact ⟨key, rfl⟩
    | ok out =>
      obtain ⟨key, herror⟩ := ih
      obtain ⟨v', hok⟩ := strictItems_ok hstrict _ hv
      rw [herror] at hok
      cases hok
  | member members hm _ ih =>
    unfold strictValue
    cases hstrict : strictMembers [] members with
    | error key => exact ⟨key, rfl⟩
    | ok out =>
      obtain ⟨key, herror⟩ := ih
      obtain ⟨-, v', hok⟩ := (strictMembers_ok hstrict).2 _ hm
      rw [herror] at hok
      cases hok

mutual

theorem strictValue_eq : (v : Json.Value) → ¬ Repeats v → strictValue v = .ok v
  | .null, _ | .bool _, _ | .num _, _ | .str _, _ => by simp [strictValue]
  | .arr items, h => by
    rw [strictValue, strictItems_eq items fun v hv hrepeats => h (.item items hv hrepeats)]
    rfl
  | .obj members, h => by
    have hkeys : (members.map Prod.fst).Nodup := by
      by_contra hkeys
      exact h (.here members hkeys)
    rw [strictValue, strictMembers_eq members (by simp) hkeys
      fun m hm hrepeats => h (.member members hm hrepeats)]
    rfl

theorem strictItems_eq :
    (items : List Json.Value) → (∀ v ∈ items, ¬ Repeats v) → strictItems items = .ok items
  | [], _ => by simp [strictItems]
  | v :: vs, h => by
    have hrest := strictItems_eq vs fun w hw => h w (List.mem_cons_of_mem _ hw)
    rw [strictItems, strictValue_eq v (h v (List.mem_cons_self))]
    simp [hrest, Except.map]

theorem strictMembers_eq {seen : List String} :
    (members : List (String × Json.Value)) → (∀ m ∈ members, m.1 ∉ seen) →
      (members.map Prod.fst).Nodup → (∀ m ∈ members, ¬ Repeats m.2) →
      strictMembers seen members = .ok members
  | [], _, _, _ => by simp [strictMembers]
  | (key, v) :: ms, hseen, hkeys, h => by
    rw [List.map_cons, List.nodup_cons] at hkeys
    have hfresh : ∀ m ∈ ms, m.1 ∉ key :: seen := by
      intro m hm hmem
      rcases List.mem_cons.mp hmem with heq | hmem
      · exact hkeys.1 (List.mem_map.mpr ⟨m, hm, heq⟩)
      · exact hseen m (List.mem_cons_of_mem _ hm) hmem
    have hrest := strictMembers_eq ms hfresh hkeys.2 fun m hm => h m (List.mem_cons_of_mem _ hm)
    rw [strictMembers, if_neg (hseen (key, v) (List.mem_cons_self)),
      strictValue_eq v (h (key, v) (List.mem_cons_self))]
    simp [hrest, Except.map]

end

/-! ## What is written -/

/-- The members that `to_json_bytes` writes. -/
def Body.members (b : Body) : List (String × Json.Value) :=
  [("slug", .str b.slug),
    match b with
    | .memory _ (some v) => ("value", .str v)
    | .memory _ none => ("value", .null)
    | .core profile => ("profile", .str profile)]

theorem writeJsonChar_eq (c : Char) : writeJsonChar c = Json.escapeChar c := by
  have hcode : ∀ d : Char, c = d ↔ c.toNat = d.toNat := fun d => Char.toNat_inj.symm
  have hzero : Json.hexDigit 0 = '0' := by decide
  unfold writeJsonChar Json.escapeChar escapeHex
  simp only [hcode '\n', hcode '\r', hcode '\t', show '\n'.toNat = 10 from rfl,
    show '\r'.toNat = 13 from rfl, show '\t'.toNat = 9 from rfl]
  by_cases hcontrol : c.toNat < 32
  · have hthousands : c.toNat / 4096 % 16 = 0 := by omega
    have hhundreds : c.toNat / 256 % 16 = 0 := by omega
    have htens : c.toNat / 16 % 16 = c.toNat / 16 := by omega
    rw [hthousands, hhundreds, htens, hzero]
    split_ifs <;> first | rfl | omega
  · split_ifs <;> first | rfl | omega

theorem writeJsonString_eq (s : String) : writeJsonString s = Json.renderString s := by
  unfold writeJsonString Json.renderString
  simp only [funext writeJsonChar_eq]

theorem toJsonText_eq (b : Body) : b.toJsonText = Json.render (.obj b.members) := by
  have hslug : Json.renderString "slug" = "\"slug\"".toList := by decide
  have hvalue : Json.renderString "value" = "\"value\"".toList := by decide
  have hprofile : Json.renderString "profile" = "\"profile\"".toList := by decide
  unfold Body.toJsonText Body.members
  rcases b with profile | ⟨slug, _ | v⟩ <;>
    simp [Json.render, Json.renderMembers, writeJsonString_eq, hslug, hvalue, hprofile]

theorem valid_members (b : Body) : Json.Valid (.obj b.members) := by
  refine .obj _ fun m hm => ?_
  unfold Body.members at hm
  rcases b with profile | ⟨slug, _ | v⟩ <;>
    simp only [List.mem_cons, List.not_mem_nil, or_false] at hm <;>
    rcases hm with rfl | rfl
  all_goals first | exact .str _ | exact .null

theorem not_repeats_members (b : Body) : ¬ Repeats (.obj b.members) := by
  intro h
  unfold Body.members at h
  rcases b with profile | ⟨slug, _ | v⟩
  all_goals
    cases h with
    | here _ hkeys => simp at hkeys
    | member _ hm h =>
      simp only [List.mem_cons, List.not_mem_nil, or_false] at hm
      rcases hm with rfl | rfl <;> cases h

theorem fromJsonBytes_toJsonBytes (b : Body) :
    Body.fromJsonBytes b.toJsonBytes = readBody b.members := by
  unfold Body.fromJsonBytes parseStrictJson Body.toJsonBytes
  simp only [Text.fromUTF8?_toUTF8, Option.bind_some, String.toList_ofList, toJsonText_eq,
    Json.parse_render (valid_members b), strictValue_eq _ (not_repeats_members b)]

/-! ## The round trip -/

def Body.Tagged : Body → Prop
  | .core _ => True
  | .memory slug _ => slug ≠ "core"

theorem readBody_members (b : Body) :
    readBody b.members = .ok b ↔ IsSlug (bytesOf b.slug) ∧ b.Tagged := by
  have hcore : IsSlug (bytesOf "core") := by decide
  unfold IsSlug at *
  unfold readBody Body.members Body.Tagged
  rcases b with profile | ⟨slug, value⟩
  · simp [member, Body.slug, hcore]
  · simp only [member, Body.slug]
    cases hslug : validateSlug (bytesOf slug) with
    | error e => simp [hslug]
    | ok =>
      by_cases hname : slug = "core"
      · rcases value with _ | v <;> simp [hname, hcore]
      · rcases value with _ | v <;> simp [hname, hslug]

/-- A body is read back just when its slug is valid and its kind is the one the slug stands for.
A document with a repeated key is never read. `serde_json` also refuses a document for its nesting or
the size of a number, with an error of its own. -/
theorem json_bytes_strict :
    (∀ b : Body, Body.fromJsonBytes b.toJsonBytes = .ok b ↔ IsSlug (bytesOf b.slug) ∧ b.Tagged) ∧
      ∀ (text : String) (v : Json.Value), Json.parse text.toList = some v → Repeats v →
        ∃ key, Body.fromJsonBytes text.toUTF8 = .error (.invalidBody (.duplicate key)) := by
  constructor
  · intro b
    rw [fromJsonBytes_toJsonBytes, readBody_members]
  · intro text v hparse hrepeats
    obtain ⟨key, herror⟩ := strictValue_of_repeats hrepeats
    refine ⟨key, ?_⟩
    unfold Body.fromJsonBytes parseStrictJson
    simp only [Text.fromUTF8?_toUTF8, Option.bind_some, hparse, herror]

/-- A memory under the slug of the core has a valid slug and is not read back. -/
theorem json_bytes_core_memory :
    ¬ ∀ b : Body, IsSlug (bytesOf b.slug) → Body.fromJsonBytes b.toJsonBytes = .ok b := by
  intro h
  have hread := h (.memory "core" (some "v")) (by decide)
  rw [fromJsonBytes_toJsonBytes, readBody_members] at hread
  exact hread.2 rfl

end Vingilot.Engram
