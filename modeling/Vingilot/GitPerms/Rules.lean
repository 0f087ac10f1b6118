import Mathlib.Data.List.SplitOn
import Vingilot.Channels.Store

/-!
# Protection rules of a repository (`buzz-core/src/git_perms.rs`)

Ref patterns, protection rules, and the evaluation of a push against them. Refs and patterns are
lists of characters.
-/

namespace Vingilot.GitPerms

open Channels (MemberRole)

/-! ## Roles -/

def permissionLevel : MemberRole → Nat
  | .owner => 4
  | .admin => 3
  | .member => 2
  | .guest => 1
  | .bot => 0

def hasAtLeast (role required : MemberRole) : Bool :=
  decide (permissionLevel required ≤ permissionLevel role)

def roleAsStr : MemberRole → String
  | .owner => "owner"
  | .admin => "admin"
  | .member => "member"
  | .guest => "guest"
  | .bot => "bot"

def strictest (existing : Option MemberRole) (role : MemberRole) : MemberRole :=
  match existing with
  | none => role
  | some existing =>
    if permissionLevel existing < permissionLevel role then role else existing

/-! ## Ref patterns -/

def maxPatternLength : Nat := 256
def maxWildcardsPerPattern : Nat := 3

inductive PatternSegment where
  | literal (text : List Char)
  | wildcard
  | recursiveWildcard
deriving DecidableEq

inductive PatternError where
  | empty
  | tooLong
  | missingRefsPrefix
  | invalidSegment (segment : List Char)
  | tooManyWildcards

structure RefPattern where
  raw : List Char
  segments : List PatternSegment
  /-- `**` stands at the end only. -/
  recursive_last : .recursiveWildcard ∉ segments.dropLast

def isLiteralChar (c : Char) : Bool := c.isAlphanum || c == '.' || c == '_' || c == '-'

/-- The segments from one part on, `wildcardCount` wildcards having been seen. -/
def parseSegments (wildcardCount : Nat) :
    List (List Char) → Except PatternError (List PatternSegment)
  | [] => .ok []
  | part :: rest =>
    if part = "**".toList then
      if rest ≠ [] then .error (.invalidSegment "** must be the last segment".toList)
      else if maxWildcardsPerPattern < wildcardCount + 1 then .error .tooManyWildcards
      else .ok [.recursiveWildcard]
    else if part = "*".toList then
      if maxWildcardsPerPattern < wildcardCount + 1 then .error .tooManyWildcards
      else do return .wildcard :: (← parseSegments (wildcardCount + 1) rest)
    else if part = [] then .error (.invalidSegment [])
    else if '*' ∈ part ∨ '?' ∈ part ∨ '[' ∈ part ∨ ']' ∈ part then .error (.invalidSegment part)
    else if !part.all isLiteralChar then .error (.invalidSegment part)
    else do return .literal part :: (← parseSegments wildcardCount rest)

theorem parseSegments_recursive_last {parts : List (List Char)} {wildcardCount : Nat}
    {segments : List PatternSegment} (h : parseSegments wildcardCount parts = .ok segments) :
    .recursiveWildcard ∉ segments.dropLast := by
  induction parts generalizing wildcardCount segments with
  | nil =>
    cases h
    simp
  | cons part rest ih =>
    have hcons : ∀ (count : Nat) (first : PatternSegment), first ≠ .recursiveWildcard →
        (do return first :: (← parseSegments count rest)) = Except.ok segments →
        .recursiveWildcard ∉ segments.dropLast := by
      intro count first hfirst hrest
      cases htail : parseSegments count rest with
      | error e => simp [htail, bind, Except.bind] at hrest
      | ok tail =>
        simp only [htail, bind, Except.bind, pure, Except.pure, Except.ok.injEq] at hrest
        subst hrest
        cases tail with
        | nil => simp
        | cons second more =>
          rw [List.dropLast_cons_of_ne_nil (by simp), List.mem_cons, not_or]
          exact ⟨hfirst.symm, ih htail⟩
    unfold parseSegments at h
    split_ifs at h
    · cases h
      simp
    · exact hcons _ _ (by simp) h
    · exact hcons _ _ (by simp) h

def RefPattern.parse (pattern : List Char) : Except PatternError RefPattern :=
  if pattern = [] then .error .empty
  else if maxPatternLength < (String.ofList pattern).utf8ByteSize then .error .tooLong
  else if !"refs/".toList.isPrefixOf pattern then .error .missingRefsPrefix
  else
    match h : parseSegments 0 (pattern.splitOn '/') with
    | .error e => .error e
    | .ok segments => .ok ⟨pattern, segments, parseSegments_recursive_last h⟩

/-- The source has `unreachable!()` for `**`. -/
def segmentMatches : PatternSegment × List Char → Bool
  | (.wildcard, _) => true
  | (.literal text, segment) => text == segment
  | (.recursiveWildcard, _) => false

def RefPattern.matches (pattern : RefPattern) (refName : List Char) : Bool :=
  let refSegments := refName.splitOn '/'
  if pattern.segments.getLast? = some .recursiveWildcard then
    let prefixLen := pattern.segments.length - 1
    if refSegments.length ≤ prefixLen then false
    else ((pattern.segments.take prefixLen).zip (refSegments.take prefixLen)).all segmentMatches
  else if refSegments.length ≠ pattern.segments.length then false
  else (pattern.segments.zip refSegments).all segmentMatches

/-! ## Rules -/

structure ProtectionRule where
  pattern : RefPattern
  pushRole : Option MemberRole
  noForcePush : Bool
  noDelete : Bool
  /-- Blocks every kind of update, not only fast-forward pushes. -/
  requirePatch : Bool

/-! ## Evaluation -/

inductive UpdateKind where
  | create
  | fastForward
  | nonFastForward
  | delete
deriving DecidableEq

structure RefUpdate where
  refName : List Char
  kind : UpdateKind

def defaultMinRole (refName : List Char) (kind : UpdateKind) : MemberRole :=
  let isBranch := "refs/heads/".toList.isPrefixOf refName
  let isTag := "refs/tags/".toList.isPrefixOf refName
  match kind with
  | .create => if isBranch || isTag then .member else .admin
  | .fastForward => if isBranch then .member else .admin
  | .nonFastForward => .admin
  | .delete => .admin

structure EffectiveRules where
  pushRole : Option MemberRole
  noForcePush : Bool
  noDelete : Bool
  requirePatch : Bool
  hasExplicitMatch : Bool

/-- The loop body of `for_ref`. -/
def EffectiveRules.union (refName : List Char) (effective : EffectiveRules)
    (rule : ProtectionRule) : EffectiveRules :=
  if !rule.pattern.matches refName then effective
  else
    { pushRole :=
        match rule.pushRole with
        | some role => some (strictest effective.pushRole role)
        | none => effective.pushRole
      noForcePush := effective.noForcePush || rule.noForcePush
      noDelete := effective.noDelete || rule.noDelete
      requirePatch := effective.requirePatch || rule.requirePatch
      hasExplicitMatch := true }

def EffectiveRules.forRef (refName : List Char) (rules : List ProtectionRule) : EffectiveRules :=
  rules.foldl (EffectiveRules.union refName) ⟨none, false, false, false, false⟩

def EffectiveRules.minRole (effective : EffectiveRules) (defaultRole : MemberRole) : MemberRole :=
  match effective.pushRole with
  | some explicit =>
    if permissionLevel defaultRole ≤ permissionLevel explicit then explicit else defaultRole
  | none => defaultRole

structure Denial where
  refName : List Char
  reason : String
deriving DecidableEq

def evaluateRefUpdate (update : RefUpdate) (role : MemberRole) (rules : List ProtectionRule) :
    Except Denial Unit :=
  let effective := EffectiveRules.forRef update.refName rules
  if !effective.hasExplicitMatch then
    let minRole := defaultMinRole update.refName update.kind
    if !hasAtLeast role minRole then
      .error ⟨update.refName, "requires " ++ roleAsStr minRole ++ " role (you have " ++
        roleAsStr role ++ "), using built-in defaults"⟩
    else .ok ()
  else if effective.requirePatch then
    .error ⟨update.refName, "direct push denied: require-patch is set, submit a NIP-34 patch"⟩
  else
    let minRole := effective.minRole (defaultMinRole update.refName update.kind)
    if !hasAtLeast role minRole then
      .error ⟨update.refName, "requires " ++ roleAsStr minRole ++ " role (you have " ++
        roleAsStr role ++ ")"⟩
    else if effective.noForcePush && update.kind = .nonFastForward then
      .error ⟨update.refName, "non-fast-forward update denied: no-force-push is set"⟩
    else if effective.noDelete && update.kind = .delete then
      .error ⟨update.refName, "ref deletion denied: no-delete is set"⟩
    else .ok ()

def evaluatePush (updates : List RefUpdate) (role : MemberRole) (rules : List ProtectionRule) :
    Except (List Denial) Unit :=
  let denials := updates.filterMap fun update =>
    match evaluateRefUpdate update role rules with
    | .error denial => some denial
    | .ok _ => none
  if denials = [] then .ok () else .error denials

end Vingilot.GitPerms
