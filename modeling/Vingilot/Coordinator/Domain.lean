import Vingilot.Core

/-! # Statuses, modes and the table of transitions (`coordinator/src/domain.rs`) -/

namespace Vingilot.Coordinator

inductive RunStatus where
  | draft
  | provisioning
  | ready
  | running
  | verifying
  | paused
  | blocked
  | completed
  | failed
  | cancelled
deriving DecidableEq

inductive RunMode where
  | interactive
  | delegated
  | chat
deriving DecidableEq

inductive Access where
  | read
  | write
deriving DecidableEq

/-- The texts that the column `lifecycle` may hold. -/
inductive Lifecycle where
  | provisioning
  | ready
  | quarantined
  | removed
deriving DecidableEq

namespace RunStatus

def canTransitionTo : RunStatus → RunStatus → Bool
  | draft, provisioning => true
  | draft, cancelled => true
  | provisioning, ready => true
  | provisioning, failed => true
  | provisioning, cancelled => true
  | ready, running => true
  | ready, cancelled => true
  | running, verifying => true
  | running, paused => true
  | running, blocked => true
  | running, failed => true
  | running, cancelled => true
  | verifying, completed => true
  | verifying, running => true
  | verifying, blocked => true
  | verifying, failed => true
  | verifying, cancelled => true
  | paused, running => true
  | paused, failed => true
  | paused, cancelled => true
  | blocked, running => true
  | blocked, failed => true
  | blocked, cancelled => true
  | _, _ => false

def isTerminal : RunStatus → Bool
  | completed => true
  | failed => true
  | cancelled => true
  | _ => false

theorem isTerminal_iff (s : RunStatus) :
    s.isTerminal = true ↔ ∀ next, s.canTransitionTo next = false := by
  constructor
  · intro h next
    cases s <;> cases next <;> first | rfl | cases h
  · intro h
    cases s with
    | completed => rfl
    | failed => rfl
    | cancelled => rfl
    | draft => cases h cancelled
    | provisioning => cases h cancelled
    | ready => cases h cancelled
    | running => cases h cancelled
    | verifying => cases h cancelled
    | paused => cases h cancelled
    | blocked => cases h cancelled

def stage : RunStatus → Nat
  | draft => 0
  | provisioning => 1
  | ready => 2
  | _ => 3

theorem stage_le_three (s : RunStatus) : s.stage ≤ 3 := by
  cases s <;> decide

theorem stage_le_of_legal {s next : RunStatus} (h : s.canTransitionTo next = true) :
    s.stage ≤ next.stage := by
  cases s <;> cases next <;> simp_all [canTransitionTo, stage]

end RunStatus

end Vingilot.Coordinator
