import Vingilot.Lib.Json
import Vingilot.Lib.Search
import Vingilot.Lib.Chars

/-!
# Templates of workflow steps (`buzz-workflow/src/executor.rs`)

A placeholder is what stands between `{{` and the next `}}`.
-/

namespace Vingilot.Workflow

open Vingilot.Text (trim)

structure TriggerContext where
  text : String
  author : String
  channelId : String
  timestamp : String
  emoji : String
  messageId : String
  webhookFields : List (String × String)

def TriggerContext.getField (ctx : TriggerContext) (name : String) : Option String :=
  match name with
  | "text" => some ctx.text
  | "author" => some ctx.author
  | "channel_id" => some ctx.channelId
  | "timestamp" => some ctx.timestamp
  | "emoji" => some ctx.emoji
  | "message_id" => some ctx.messageId
  | other => ctx.webhookFields.lookup other

abbrev StepOutputs := List (String × Json.Value)

/-! ## Values -/

def jsonToString : Json.Value → List Char
  | .str s => s.toList
  | .bool b => (toString b).toList
  | .num text => text
  | .null => []
  | other => Json.render other

def jsonGetStr (value : Json.Value) (key : String) : Option (List Char) :=
  match value with
  | .obj members => (members.lookup key).map jsonToString
  | _ => none

/-- `str::strip_prefix`. -/
def stripStart (start text : List Char) : Option (List Char) :=
  if start.isPrefixOf text then some (text.drop start.length) else none

def resolveVariable (path : List Char) (ctx : TriggerContext) (outputs : StepOutputs) :
    Option (List Char) :=
  match stripStart "trigger.".toList path with
  | some field => (ctx.getField (.ofList field)).map String.toList
  | none => do
    let rest ← stripStart "steps.".toList path
    let (stepId, rest) ← Search.splitOnce '.' rest
    let (middle, field) ← Search.splitOnce '.' rest
    if middle ≠ "output".toList then none
    else
      let output ← outputs.lookup (.ofList stepId)
      jsonGetStr output (.ofList field)

/-- Raises the text of a `TemplateError`. `toNpub` gives the bech32 form of a hex public key, and
nothing for another text. -/
def applyFilter (toNpub : List Char → Option (List Char)) (value filter : List Char) :
    Except String (List Char) :=
  let filter := trim filter
  match (stripStart "truncate(".toList filter).bind fun s => Text.stripSuffix s ')' with
  | some inner =>
    match Text.parseU64 (trim inner) with
    | some n => .ok (value.take n)
    | none => .error s!"truncate() requires a number, got: {String.ofList inner}"
  | none =>
    if filter = "npub".toList ∨ filter = "truncate_pubkey".toList then
      .ok ((toNpub value).getD value)
    else .error s!"unknown filter: {String.ofList filter}"

/-! ## Scanning -/

def openBraces : List Char := ['\x7b', '\x7b']

def closeBraces : List Char := ['\x7d', '\x7d']

def splitExpr (expr : List Char) : List Char × Option (List Char) :=
  match Search.splitOnce '|' expr with
  | some (path, filter) => (trim path, some (trim filter))
  | none => (trim expr, none)

section Resolve

variable (toNpub : List Char → Option (List Char)) (ctx : TriggerContext) (outputs : StepOutputs)

def resolveExpr (expr : List Char) : Except String (List Char) :=
  let (path, filter) := splitExpr expr
  match resolveVariable path ctx outputs, filter with
  | some value, some filter => applyFilter toNpub value filter
  | some value, none => .ok value
  | none, _ => .ok (openBraces ++ expr ++ closeBraces)

def resolveLoop (result remaining : List Char) : Except String (List Char) :=
  match _hopen : Search.find openBraces remaining with
  | none => .ok (result ++ remaining)
  | some start =>
    match Search.find closeBraces (remaining.drop (start + 2)) with
    | none => .ok (result ++ remaining.take start ++ openBraces ++ remaining.drop (start + 2))
    | some stop => do
      let value ← resolveExpr toNpub ctx outputs (trim ((remaining.drop (start + 2)).take stop))
      resolveLoop (result ++ remaining.take start ++ value)
        ((remaining.drop (start + 2)).drop (stop + 2))
termination_by remaining.length
decreasing_by
  have hle := (Search.find_eq_some _hopen).1.le_length (by decide)
  simp only [openBraces, List.length_cons, List.length_nil] at hle
  simp only [List.length_drop]
  omega

def resolveTemplate (template : List Char) : Except String (List Char) :=
  if Text.contains template openBraces then resolveLoop toNpub ctx outputs [] template
  else .ok template

end Resolve

/-! ## Segments -/

inductive Segment where
  | literal (text : List Char)
  | placeholder (raw : List Char)
deriving DecidableEq

def Segment.text : Segment → List Char
  | literal text => text
  | placeholder raw => openBraces ++ raw ++ closeBraces

def segments (template : List Char) : List Segment :=
  match _hopen : Search.find openBraces template with
  | none => [.literal template]
  | some start =>
    match Search.find closeBraces (template.drop (start + 2)) with
    | none => [.literal template]
    | some stop =>
      .literal (template.take start) :: .placeholder ((template.drop (start + 2)).take stop) ::
        segments ((template.drop (start + 2)).drop (stop + 2))
termination_by template.length
decreasing_by
  have hle := (Search.find_eq_some _hopen).1.le_length (by decide)
  simp only [openBraces, List.length_cons, List.length_nil] at hle
  simp only [List.length_drop]
  omega

variable {template : List Char} {start stop : Nat}

theorem segments_plain (hopen : Search.find openBraces template = none) :
    segments template = [.literal template] := by
  rw [segments]
  split
  · rfl
  · simp_all

theorem segments_unclosed (hopen : Search.find openBraces template = some start)
    (hclose : Search.find closeBraces (template.drop (start + 2)) = none) :
    segments template = [.literal template] := by
  rw [segments]
  split
  · rfl
  · simp_all

theorem segments_closed (hopen : Search.find openBraces template = some start)
    (hclose : Search.find closeBraces (template.drop (start + 2)) = some stop) :
    segments template = .literal (template.take start) ::
      .placeholder ((template.drop (start + 2)).take stop) ::
        segments ((template.drop (start + 2)).drop (stop + 2)) := by
  rw [segments]
  split
  · simp_all
  · simp_all

theorem parts_open (hopen : Search.find openBraces template = some start) :
    template.take start ++ (openBraces ++ template.drop (start + 2)) = template :=
  (Search.find_eq_some hopen).1.parts

theorem parts_close {text : List Char} (hclose : Search.find closeBraces text = some stop) :
    text.take stop ++ (closeBraces ++ text.drop (stop + 2)) = text :=
  (Search.find_eq_some hclose).1.parts

theorem text_segments (template : List Char) :
    (segments template).flatMap Segment.text = template := by
  fun_induction segments template with
  | case1 template hopen => exact List.append_nil template
  | case2 template start hopen hclose => exact List.append_nil template
  | case3 template start hopen stop hclose ih =>
    rw [List.flatMap_cons, List.flatMap_cons, ih, Segment.text, Segment.text, List.append_assoc,
      List.append_assoc, parts_close hclose, parts_open hopen]

theorem contains_eq (text pattern : List Char) :
    Text.contains text pattern = (Search.find pattern text).isSome := by
  unfold Text.contains
  induction text with
  | nil => cases pattern <;> rfl
  | cons c text ih =>
    rw [List.tails_cons, List.any_cons, ih, Search.find]
    split_ifs with h
    · rw [h]
      rfl
    · rw [Bool.eq_false_iff.mpr h, Option.isSome_map, Bool.false_or]

section Single

variable {toNpub : List Char → Option (List Char)} {ctx : TriggerContext} {outputs : StepOutputs}

def Segment.resolve (toNpub : List Char → Option (List Char)) (ctx : TriggerContext)
    (outputs : StepOutputs) : Segment → Except String (List Char)
  | literal text => .ok text
  | placeholder raw => resolveExpr toNpub ctx outputs (trim raw)

theorem resolveLoop_eq (result remaining : List Char) :
    resolveLoop toNpub ctx outputs result remaining =
      ((segments remaining).mapM (Segment.resolve toNpub ctx outputs)).map fun values =>
        result ++ values.flatten := by
  fun_induction resolveLoop toNpub ctx outputs result remaining with
  | case1 result remaining hopen =>
    rw [segments_plain hopen]
    simp [Segment.resolve, Except.map, bind, Except.bind, pure, Except.pure]
  | case2 result remaining start hopen hclose =>
    rw [segments_unclosed hopen hclose, List.append_assoc, List.append_assoc, parts_open hopen]
    simp [Segment.resolve, Except.map, bind, Except.bind, pure, Except.pure]
  | case3 result remaining start hopen stop hclose ih =>
    rw [segments_closed hopen hclose, List.mapM_cons, List.mapM_cons]
    simp only [Segment.resolve]
    cases resolveExpr toNpub ctx outputs (trim ((remaining.drop (start + 2)).take stop)) with
    | error e => rfl
    | ok value =>
      simp only [bind, Except.bind]
      rw [ih value]
      cases (segments ((remaining.drop (start + 2)).drop (stop + 2))).mapM
        (Segment.resolve toNpub ctx outputs) with
      | error e => rfl
      | ok values => simp [Except.map, pure, Except.pure]

theorem resolveTemplate_eq (template : List Char) :
    resolveTemplate toNpub ctx outputs template =
      ((segments template).mapM (Segment.resolve toNpub ctx outputs)).map List.flatten := by
  have hloop : resolveTemplate toNpub ctx outputs template =
      resolveLoop toNpub ctx outputs [] template := by
    unfold resolveTemplate
    split_ifs with hcontains
    · rfl
    · rw [contains_eq, Bool.not_eq_true, Option.isSome_eq_false_iff, Option.isNone_iff_eq_none]
        at hcontains
      rw [resolveLoop]
      split
      · rfl
      · simp_all
  rw [hloop, resolveLoop_eq]
  rfl

def varPath (raw : List Char) : List Char := (splitExpr (trim raw)).1

theorem resolve_congr {ctx' : TriggerContext} {outputs' : StepOutputs} {segment : Segment}
    (h : ∀ raw, segment = .placeholder raw →
      resolveVariable (varPath raw) ctx outputs = resolveVariable (varPath raw) ctx' outputs') :
    segment.resolve toNpub ctx outputs = segment.resolve toNpub ctx' outputs' := by
  cases segment with
  | literal text => rfl
  | placeholder raw =>
    have hpath := h raw rfl
    unfold varPath at hpath
    simp only [Segment.resolve, resolveExpr, hpath]

theorem mapM_congr {f g : Segment → Except String (List Char)} {parts : List Segment}
    (h : ∀ segment ∈ parts, f segment = g segment) : parts.mapM f = parts.mapM g := by
  induction parts with
  | nil => rfl
  | cons segment parts ih =>
    rw [List.mapM_cons, List.mapM_cons, h segment List.mem_cons_self,
      ih fun s hs => h s (List.mem_cons_of_mem _ hs)]

end Single

theorem template_single_pass (toNpub : List Char → Option (List Char)) (ctx ctx' : TriggerContext)
    (outputs outputs' : StepOutputs) (template : List Char)
    (hagree : ∀ raw, .placeholder raw ∈ segments template →
      resolveVariable (varPath raw) ctx outputs = resolveVariable (varPath raw) ctx' outputs') :
    (segments template).flatMap Segment.text = template ∧
      resolveTemplate toNpub ctx outputs template =
        ((segments template).mapM (Segment.resolve toNpub ctx outputs)).map List.flatten ∧
      resolveTemplate toNpub ctx' outputs' template = resolveTemplate toNpub ctx outputs template := by
  refine ⟨text_segments template, resolveTemplate_eq template, ?_⟩
  rw [resolveTemplate_eq, resolveTemplate_eq]
  refine congrArg _ (mapM_congr fun segment hsegment => (resolve_congr ?_).symm)
  rintro raw rfl
  exact hagree raw hsegment

def emptyContext : TriggerContext := ⟨"", "", "", "", "", "", []⟩

def hiTemplate : List Char := "hi \x7b\x7btrigger.text\x7d\x7d".toList

theorem segments_hiTemplate : segments hiTemplate =
    [.literal "hi ".toList, .placeholder "trigger.text".toList, .literal []] := by
  rw [segments_closed (show _ = some 3 by decide) (show _ = some 12 by decide),
    segments_plain (by decide)]
  decide

theorem template_single_pass_braces :
    resolveTemplate (fun _ => none) ⟨"\x7b\x7btrigger.author\x7d\x7d", "eve", "", "", "", "", []⟩ []
        hiTemplate =
      resolveTemplate (fun _ => none) { emptyContext with text := "\x7b\x7btrigger.author\x7d\x7d" } []
        hiTemplate := by
  refine (template_single_pass _ _ _ [] [] hiTemplate ?_).2.2
  intro raw hraw
  rw [segments_hiTemplate] at hraw
  simp at hraw
  subst hraw
  decide

/-! ## Placeholders of unknown variables -/

def Segment.kept : Segment → List Char
  | literal text => text
  | placeholder raw => openBraces ++ trim raw ++ closeBraces

theorem trim_sublist (text : List Char) : (trim text).Sublist text := by
  have hdropped := (List.dropWhile_sublist (l := (text.dropWhile Text.isWhitespace).reverse)
    Text.isWhitespace).reverse
  rw [List.reverse_reverse] at hdropped
  exact hdropped.trans (List.dropWhile_sublist _)

theorem length_kept_le (segment : Segment) : segment.kept.length ≤ segment.text.length := by
  cases segment with
  | literal text => exact le_refl _
  | placeholder raw =>
    have hle := (trim_sublist raw).length_le
    simp only [Segment.kept, Segment.text, List.length_append]
    omega

theorem kept_eq_iff (segment : Segment) :
    segment.kept = segment.text ↔ ∀ raw, segment = .placeholder raw → trim raw = raw := by
  cases segment with
  | literal text => simp [Segment.kept, Segment.text]
  | placeholder raw => simp [Segment.kept, Segment.text]

theorem flatMap_kept_iff (parts : List Segment) :
    parts.flatMap Segment.kept = parts.flatMap Segment.text ↔
      ∀ raw, .placeholder raw ∈ parts → trim raw = raw := by
  have hle (parts : List Segment) :
      (parts.flatMap Segment.kept).length ≤ (parts.flatMap Segment.text).length := by
    induction parts with
    | nil => exact le_refl _
    | cons segment parts ih =>
      rw [List.flatMap_cons, List.flatMap_cons, List.length_append, List.length_append]
      exact Nat.add_le_add (length_kept_le segment) ih
  induction parts with
  | nil => simp
  | cons segment parts ih =>
    have hsplit : segment.kept ++ parts.flatMap Segment.kept =
        segment.text ++ parts.flatMap Segment.text ↔
        segment.kept = segment.text ∧ parts.flatMap Segment.kept = parts.flatMap Segment.text := by
      constructor
      · intro heq
        have hlength := congrArg List.length heq
        simp only [List.length_append] at hlength
        have hsegment := length_kept_le segment
        have hparts := hle parts
        exact List.append_inj heq (by omega)
      · rintro ⟨hsegment, hparts⟩
        rw [hsegment, hparts]
    rw [List.flatMap_cons, List.flatMap_cons]
    refine (hsplit.trans (and_congr (kept_eq_iff segment) ih)).trans ?_
    constructor
    · rintro ⟨hsegment, hparts⟩ raw hraw
      rcases List.mem_cons.mp hraw with heq | hraw
      · exact hsegment raw heq.symm
      · exact hparts raw hraw
    · intro h
      refine ⟨?_, fun raw hraw => h raw (List.mem_cons_of_mem _ hraw)⟩
      rintro raw rfl
      exact h raw List.mem_cons_self

section Unknown

variable {toNpub : List Char → Option (List Char)} {ctx : TriggerContext} {outputs : StepOutputs}

theorem mapM_unknown {parts : List Segment} (h : ∀ raw, .placeholder raw ∈ parts →
      resolveVariable (varPath raw) ctx outputs = none) :
    parts.mapM (Segment.resolve toNpub ctx outputs) = .ok (parts.map Segment.kept) := by
  have hkept : ∀ segment ∈ parts,
      segment.resolve toNpub ctx outputs = .ok segment.kept := by
    intro segment hsegment
    cases segment with
    | literal text => rfl
    | placeholder raw =>
      have hpath := h raw hsegment
      unfold varPath at hpath
      simp only [Segment.resolve, resolveExpr, hpath, Segment.kept]
  rw [mapM_congr hkept]
  exact List.mapM_pure

end Unknown

theorem unresolved_kept_iff (toNpub : List Char → Option (List Char)) (ctx : TriggerContext)
    (outputs : StepOutputs) (template : List Char) :
    ((∀ raw, .placeholder raw ∈ segments template →
        resolveVariable (varPath raw) ctx outputs = none) →
      resolveTemplate toNpub ctx outputs template = .ok template) ↔
    (∃ raw, .placeholder raw ∈ segments template ∧
        resolveVariable (varPath raw) ctx outputs ≠ none) ∨
      ∀ raw, .placeholder raw ∈ segments template → trim raw = raw := by
  by_cases hunknown : ∀ raw, .placeholder raw ∈ segments template →
      resolveVariable (varPath raw) ctx outputs = none
  · have hnone : ¬ ∃ raw, .placeholder raw ∈ segments template ∧
        resolveVariable (varPath raw) ctx outputs ≠ none := by
      rintro ⟨raw, hraw, hne⟩
      exact hne (hunknown raw hraw)
    rw [resolveTemplate_eq, mapM_unknown hunknown, or_iff_right hnone, ← flatMap_kept_iff,
      text_segments, List.flatMap_def]
    exact ⟨fun h => Except.ok.inj (h hunknown), fun h _ => congrArg _ h⟩
  · refine iff_of_true (fun h => absurd h hunknown) (Or.inl ?_)
    simpa using hunknown

def spacedTemplate : List Char := "\x7b\x7b foo \x7d\x7d".toList

theorem spaced_placeholder_changed :
    (∀ raw, .placeholder raw ∈ segments spacedTemplate →
        resolveVariable (varPath raw) emptyContext [] = none) ∧
      resolveTemplate (fun _ => none) emptyContext [] spacedTemplate = .ok "\x7b\x7bfoo\x7d\x7d".toList ∧
      resolveTemplate (fun _ => none) emptyContext [] spacedTemplate ≠ .ok spacedTemplate := by
  have hsegments : segments spacedTemplate =
      [.literal [], .placeholder " foo ".toList, .literal []] := by
    rw [segments_closed (show _ = some 0 by decide) (show _ = some 5 by decide),
      segments_plain (by decide)]
    decide
  have hunknown : ∀ raw, .placeholder raw ∈ segments spacedTemplate →
      resolveVariable (varPath raw) emptyContext [] = none := by
    intro raw hraw
    rw [hsegments] at hraw
    simp at hraw
    subst hraw
    decide
  have hresolved : resolveTemplate (fun _ => none) emptyContext [] spacedTemplate =
      .ok "\x7b\x7bfoo\x7d\x7d".toList := by
    rw [resolveTemplate_eq, mapM_unknown hunknown, hsegments]
    rfl
  refine ⟨hunknown, hresolved, ?_⟩
  rw [hresolved]
  decide

end Vingilot.Workflow
