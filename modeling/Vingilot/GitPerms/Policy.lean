import Vingilot.GitPerms.Rules

/-!
# The push policy is monotone

An update is allowed when the role meets the default and every matching rule permits
it. Nothing else is read from the list of rules, so a longer list can only deny more.
-/

namespace Vingilot.GitPerms

open Channels (MemberRole)

/-! ## What the union of the rules keeps -/

def requiredLevel (pushRole : Option MemberRole) : Nat := (pushRole.map permissionLevel).getD 0

theorem permissionLevel_strictest (existing : Option MemberRole) (role : MemberRole) :
    permissionLevel (strictest existing role) =
      max (requiredLevel existing) (permissionLevel role) := by
  cases existing with
  | none => simp [strictest, requiredLevel]
  | some existing =>
    simp only [strictest, requiredLevel, Option.map_some, Option.getD_some]
    split_ifs with hlt
    · rw [max_eq_right hlt.le]
    · rw [max_eq_left (not_lt.mp hlt)]

def matching (refName : List Char) (rules : List ProtectionRule) : List ProtectionRule :=
  rules.filter fun rule => rule.pattern.matches refName

structure EffectiveRules.Unites (effective : EffectiveRules) (rules : List ProtectionRule) :
    Prop where
  implicit : effective.hasExplicitMatch = false ↔ rules = []
  level : ∀ n, requiredLevel effective.pushRole ≤ n ↔
    ∀ rule ∈ rules, requiredLevel rule.pushRole ≤ n
  noForcePush : effective.noForcePush = false ↔ ∀ rule ∈ rules, rule.noForcePush = false
  noDelete : effective.noDelete = false ↔ ∀ rule ∈ rules, rule.noDelete = false
  requirePatch : effective.requirePatch = false ↔ ∀ rule ∈ rules, rule.requirePatch = false

theorem unites_nil : EffectiveRules.Unites ⟨none, false, false, false, false⟩ [] := by
  constructor <;> simp [requiredLevel]

theorem EffectiveRules.Unites.union {effective : EffectiveRules} {seen : List ProtectionRule}
    {refName : List Char} {rule : ProtectionRule} (h : effective.Unites seen)
    (hmatch : rule.pattern.matches refName = true) :
    (effective.union refName rule).Unites (seen ++ [rule]) := by
  rw [EffectiveRules.union, if_neg (by simp [hmatch])]
  constructor
  · simp
  · intro n
    rw [List.forall_mem_append, List.forall_mem_singleton, ← h.level n]
    cases rule.pushRole with
    | none => simp [requiredLevel]
    | some role =>
      have hlevel := permissionLevel_strictest effective.pushRole role
      simp only [requiredLevel, Option.map_some, Option.getD_some] at hlevel ⊢
      rw [hlevel, max_le_iff]
  · rw [Bool.or_eq_false_iff, h.noForcePush, List.forall_mem_append, List.forall_mem_singleton]
  · rw [Bool.or_eq_false_iff, h.noDelete, List.forall_mem_append, List.forall_mem_singleton]
  · rw [Bool.or_eq_false_iff, h.requirePatch, List.forall_mem_append, List.forall_mem_singleton]

theorem unites_forRef (refName : List Char) (rules : List ProtectionRule) :
    (EffectiveRules.forRef refName rules).Unites (matching refName rules) := by
  have hfold : ∀ (rest seen : List ProtectionRule) (effective : EffectiveRules),
      effective.Unites seen →
      (rest.foldl (EffectiveRules.union refName) effective).Unites
        (seen ++ matching refName rest) := by
    intro rest
    induction rest with
    | nil => exact fun seen effective h => by simpa [matching] using h
    | cons rule rest ih =>
      intro seen effective h
      rw [List.foldl_cons]
      by_cases hmatch : rule.pattern.matches refName = true
      · have hnext := ih (seen ++ [rule]) _ (h.union hmatch)
        simpa [matching, hmatch] using hnext
      · have hskip : effective.union refName rule = effective := by
          rw [EffectiveRules.union, if_pos (by simp [hmatch])]
        rw [hskip]
        simpa [matching, hmatch] using ih seen effective h
  exact hfold rules [] _ unites_nil

/-! ## One update -/

def ProtectionRule.Permits (rule : ProtectionRule) (role : MemberRole) (kind : UpdateKind) : Prop :=
  rule.requirePatch = false ∧ requiredLevel rule.pushRole ≤ permissionLevel role ∧
    (kind = .nonFastForward → rule.noForcePush = false) ∧
    (kind = .delete → rule.noDelete = false)

variable {role : MemberRole}

theorem hasAtLeast_iff {required : MemberRole} :
    hasAtLeast role required = true ↔ permissionLevel required ≤ permissionLevel role :=
  decide_eq_true_iff

theorem hasAtLeast_minRole (effective : EffectiveRules) (role defaultRole : MemberRole) :
    hasAtLeast role (effective.minRole defaultRole) = true ↔
      hasAtLeast role defaultRole = true ∧
        requiredLevel effective.pushRole ≤ permissionLevel role := by
  rw [hasAtLeast_iff, hasAtLeast_iff]
  obtain ⟨pushRole, noForcePush, noDelete, requirePatch, hasExplicitMatch⟩ := effective
  cases pushRole with
  | none => simp [EffectiveRules.minRole, requiredLevel]
  | some explicit =>
    simp only [EffectiveRules.minRole, requiredLevel, Option.map_some, Option.getD_some]
    split_ifs with hle
    · exact ⟨fun h => ⟨hle.trans h, h⟩, fun h => h.2⟩
    · exact ⟨fun h => ⟨h, (not_le.mp hle).le.trans h⟩, fun h => h.1⟩

variable {update : RefUpdate} {rules : List ProtectionRule}

theorem evaluateRefUpdate_ok_iff_effective {effective : EffectiveRules}
    (heffective : EffectiveRules.forRef update.refName rules = effective) :
    evaluateRefUpdate update role rules = .ok () ↔
      hasAtLeast role (defaultMinRole update.refName update.kind) = true ∧
        (effective.hasExplicitMatch = true →
          effective.requirePatch = false ∧
          requiredLevel effective.pushRole ≤ permissionLevel role ∧
          (update.kind = .nonFastForward → effective.noForcePush = false) ∧
          (update.kind = .delete → effective.noDelete = false)) := by
  have hmin := hasAtLeast_minRole effective role (defaultMinRole update.refName update.kind)
  unfold evaluateRefUpdate
  rw [heffective]
  cases hexplicit : effective.hasExplicitMatch with
  | false => simp [hexplicit]
  | true =>
    cases hpatch : effective.requirePatch with
    | true => simp [hexplicit, hpatch]
    | false =>
      by_cases hrole :
          hasAtLeast role (effective.minRole (defaultMinRole update.refName update.kind)) = true
      · obtain ⟨hdefault, hlevel⟩ := hmin.mp hrole
        simp only [hexplicit, hpatch, hrole, hdefault, hlevel, Bool.not_true, Bool.false_eq_true,
          if_false, true_and, forall_const]
        split_ifs with hforce hdelete
        · simp_all
        · simp_all
        · simp only [Bool.and_eq_true, decide_eq_true_eq, not_and] at hforce hdelete
          refine iff_of_true rfl ⟨fun hkind => ?_, fun hkind => ?_⟩
          · exact Bool.eq_false_iff.mpr fun hset => hforce hset hkind
          · exact Bool.eq_false_iff.mpr fun hset => hdelete hset hkind
      · have hnot := mt hmin.mpr hrole
        simp only [hexplicit, hpatch, hrole, Bool.not_true, Bool.false_eq_true, if_false,
          Bool.not_false, if_true, reduceCtorEq, false_iff]
        exact fun h => hnot ⟨h.1, (h.2 trivial).2.1⟩

theorem evaluateRefUpdate_ok_iff (update : RefUpdate) (role : MemberRole)
    (rules : List ProtectionRule) :
    evaluateRefUpdate update role rules = .ok () ↔
      hasAtLeast role (defaultMinRole update.refName update.kind) = true ∧
        ∀ rule ∈ matching update.refName rules, rule.Permits role update.kind := by
  have hunites := unites_forRef update.refName rules
  rw [evaluateRefUpdate_ok_iff_effective rfl]
  refine and_congr_right fun _ => ?_
  rw [← Bool.not_eq_false, hunites.implicit, hunites.requirePatch, hunites.level,
    hunites.noForcePush, hunites.noDelete]
  constructor
  · intro h rule hrule
    obtain ⟨hpatch, hlevel, hforce, hdelete⟩ := h (List.ne_nil_of_mem hrule)
    exact ⟨hpatch rule hrule, hlevel rule hrule, fun hkind => hforce hkind rule hrule,
      fun hkind => hdelete hkind rule hrule⟩
  · intro h _
    exact ⟨fun rule hrule => (h rule hrule).1, fun rule hrule => (h rule hrule).2.1,
      fun hkind rule hrule => (h rule hrule).2.2.1 hkind,
      fun hkind rule hrule => (h rule hrule).2.2.2 hkind⟩

theorem evaluateRefUpdate_of_subset {rules' : List ProtectionRule} (hsub : rules ⊆ rules')
    (h : evaluateRefUpdate update role rules' = .ok ()) :
    evaluateRefUpdate update role rules = .ok () := by
  rw [evaluateRefUpdate_ok_iff] at h ⊢
  refine ⟨h.1, fun rule hrule => h.2 rule ?_⟩
  obtain ⟨hmem, hmatch⟩ := List.mem_filter.mp hrule
  exact List.mem_filter.mpr ⟨hsub hmem, hmatch⟩

theorem evaluateRefUpdate_of_level {role' : MemberRole}
    (hlevel : permissionLevel role ≤ permissionLevel role')
    (h : evaluateRefUpdate update role rules = .ok ()) :
    evaluateRefUpdate update role' rules = .ok () := by
  rw [evaluateRefUpdate_ok_iff] at h ⊢
  rw [hasAtLeast_iff] at h ⊢
  refine ⟨h.1.trans hlevel, fun rule hrule => ?_⟩
  obtain ⟨hpatch, hrole, hkind⟩ := h.2 rule hrule
  exact ⟨hpatch, hrole.trans hlevel, hkind⟩

/-! ## A push -/

theorem evaluatePush_ok_iff (updates : List RefUpdate) (role : MemberRole)
    (rules : List ProtectionRule) :
    evaluatePush updates role rules = .ok () ↔
      ∀ update ∈ updates, evaluateRefUpdate update role rules = .ok () := by
  unfold evaluatePush
  simp only
  split_ifs with hnone
  · simp only [true_iff]
    intro update hmem
    have hupdate := List.filterMap_eq_nil_iff.mp hnone update hmem
    cases hresult : evaluateRefUpdate update role rules with
    | error denial =>
      rw [hresult] at hupdate
      cases hupdate
    | ok _ => rfl
  · simp only [false_iff]
    intro hall
    refine hnone (List.filterMap_eq_nil_iff.mpr fun update hmem => ?_)
    rw [hall update hmem]

/-- Adding, permuting or repeating rules never allows what was denied, a higher role is
never denied what a lower one may do, an allowed push meets the default role of each
of its updates, and a push is allowed exactly when each of its updates is. -/
theorem push_policy_monotone (updates : List RefUpdate) (role : MemberRole)
    (rules : List ProtectionRule) :
    (∀ rules', rules ⊆ rules' →
      (∀ update, evaluateRefUpdate update role rules' = .ok () →
        evaluateRefUpdate update role rules = .ok ()) ∧
      (evaluatePush updates role rules' = .ok () → evaluatePush updates role rules = .ok ())) ∧
    (∀ role', permissionLevel role ≤ permissionLevel role' →
      (∀ update, evaluateRefUpdate update role rules = .ok () →
        evaluateRefUpdate update role' rules = .ok ()) ∧
      (evaluatePush updates role rules = .ok () → evaluatePush updates role' rules = .ok ())) ∧
    (evaluatePush updates role rules = .ok () → ∀ update ∈ updates,
      hasAtLeast role (defaultMinRole update.refName update.kind) = true) ∧
    (evaluatePush updates role rules = .ok () ↔
      ∀ update ∈ updates, evaluateRefUpdate update role rules = .ok ()) := by
  simp only [evaluatePush_ok_iff]
  refine ⟨?_, ?_, ?_, trivial⟩
  · intro rules' hsub
    exact ⟨fun update => evaluateRefUpdate_of_subset hsub,
      fun h update hmem => evaluateRefUpdate_of_subset hsub (h update hmem)⟩
  · intro role' hlevel
    exact ⟨fun update => evaluateRefUpdate_of_level hlevel,
      fun h update hmem => evaluateRefUpdate_of_level hlevel (h update hmem)⟩
  · exact fun h update hmem => ((evaluateRefUpdate_ok_iff update role rules).mp (h update hmem)).1

def demoRule (pattern : List PatternSegment) (h : .recursiveWildcard ∉ pattern.dropLast)
    (pushRole : Option MemberRole) (noForcePush : Bool) : ProtectionRule :=
  ⟨⟨[], pattern, h⟩, pushRole, noForcePush, false, false⟩

/-- The rules `refs/heads/* no-force-push` and `refs/** push:admin`. -/
def demoRules : List ProtectionRule :=
  [demoRule [.literal "refs".toList, .literal "heads".toList, .wildcard] (by decide) none true,
    demoRule [.literal "refs".toList, .recursiveWildcard] (by decide) (some .admin) false]

theorem push_policy_monotone_demo :
    let update : RefUpdate := ⟨"refs/heads/main".toList, .fastForward⟩
    evaluatePush [update] .owner (demoRules.drop 1) = .ok () ∧
      ∀ rules', demoRules ⊆ rules' →
        evaluatePush [update] .member rules' = .ok () →
        evaluatePush [update] .member demoRules = .ok () := by
  intro update
  have hadmin : evaluatePush [update] .admin (demoRules.drop 1) = .ok () := by decide +kernel
  exact ⟨((push_policy_monotone [update] .admin (demoRules.drop 1)).2.1 .owner (by decide)).2 hadmin,
    fun rules' hsub => ((push_policy_monotone [update] .member demoRules).1 rules' hsub).2⟩

end Vingilot.GitPerms
