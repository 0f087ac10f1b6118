import Vingilot.Core

/-! # The replica fence's ring of proofs (`buzz-db/src/replica_fence.rs`)

Times are whole microseconds, as Postgres keeps them. A wall time may be negative.
-/

namespace Vingilot.Fence

def secs (n : Int) : Int := n * 1000000

def createdAtFloorSecs : Int := 960

def fenceClockMarginSecs : Int := 5

def ringCapacity : Nat := 120

/-- One retained heartbeat observation. `committedAt` is a monotonic instant. -/
structure TokenEntry where
  token : Int
  committedAt : Nat
  fenceWall : Int
deriving DecidableEq

/-- The ring is oldest first. `epoch` is `none` until the first probe. -/
structure ReplicaFence where
  epoch : Option Uuid
  ring : List TokenEntry
deriving DecidableEq

inductive RecordOutcome where
  | recorded
  | tokenRegression
deriving DecidableEq

inductive ResolveOutcome where
  | proved (entry : TokenEntry)
  | epochMismatch
  | tokenBehind
deriving DecidableEq

namespace ReplicaFence

def new : ReplicaFence := ⟨none, []⟩

def close (f : ReplicaFence) : ReplicaFence := { f with ring := [] }

/-- `pop_front` at capacity, then `push_back`. -/
def pushBack (ring : List TokenEntry) (entry : TokenEntry) : List TokenEntry :=
  (if ring.length = ringCapacity then ring.drop 1 else ring) ++ [entry]

def record (f : ReplicaFence) (token : Int) (epoch : Uuid) (committedAt : Nat)
    (fenceWall : Int) : ReplicaFence × RecordOutcome :=
  let entry : TokenEntry := ⟨token, committedAt, fenceWall⟩
  if f.epoch ≠ some epoch then
    (⟨some epoch, pushBack [] entry⟩, .recorded)
  else if f.ring.getLast?.any fun last => token ≤ last.token then
    ({ f with ring := [] }, .tokenRegression)
  else
    ({ f with ring := pushBack f.ring entry }, .recorded)

/-- The newest entry at or below the observed token, if the epochs agree. A fence without
an epoch compares none. -/
def resolve (f : ReplicaFence) (observedToken : Int) (observedEpoch : Uuid) : ResolveOutcome :=
  match f.epoch with
  | some e => if e ≠ observedEpoch then .epochMismatch else lookup
  | none => lookup
where
  lookup : ResolveOutcome :=
    match f.ring.reverse.find? fun entry => entry.token ≤ observedToken with
    | some entry => .proved entry
    | none => .tokenBehind

end ReplicaFence

/-- `min(oldest_xact_start, S) - floor - clock_margin`. -/
def fenceWall (sampledAt : Int) (oldestXactStart : Option Int) : Int :=
  let lower := match oldestXactStart with
    | some oldest => min oldest sampledAt
    | none => sampledAt
  lower - secs createdAtFloorSecs - secs fenceClockMarginSecs

/-! ## What the operations keep and what a proof cites -/

namespace ReplicaFence

theorem mem_pushBack (ring : List TokenEntry) (entry x : TokenEntry) (h : x ∈ pushBack ring entry) :
    x ∈ ring ∨ x = entry := by
  unfold pushBack at h
  rw [List.mem_append, List.mem_singleton] at h
  split_ifs at h
  · exact h.imp_left List.mem_of_mem_drop
  · exact h

theorem getLast?_pushBack (ring : List TokenEntry) (entry : TokenEntry) :
    (pushBack ring entry).getLast? = some entry := by
  simp [pushBack]

theorem record_cases (f : ReplicaFence) (token : Int) (epoch : Uuid) (committedAt : Nat)
    (wall : Int) :
    (f.epoch ≠ some epoch ∧
        f.record token epoch committedAt wall = (⟨some epoch, [⟨token, committedAt, wall⟩]⟩, .recorded)) ∨
      (f.epoch = some epoch ∧ (∃ last, f.ring.getLast? = some last ∧ token ≤ last.token) ∧
        f.record token epoch committedAt wall = (⟨some epoch, []⟩, .tokenRegression)) ∨
      (f.epoch = some epoch ∧ (∀ last, f.ring.getLast? = some last → last.token < token) ∧
        f.record token epoch committedAt wall =
          (⟨some epoch, pushBack f.ring ⟨token, committedAt, wall⟩⟩, .recorded)) := by
  unfold record
  dsimp only
  by_cases hepoch : f.epoch = some epoch
  · rw [if_neg (not_not.mpr hepoch)]
    split_ifs with hlast
    · exact Or.inr (Or.inl ⟨hepoch, by simpa [Option.any_eq_true] using hlast, by rw [hepoch]⟩)
    · refine Or.inr (Or.inr ⟨hepoch, ?_, by rw [hepoch]⟩)
      intro last hget
      simpa [hget] using hlast
  · exact Or.inl ⟨hepoch, by rw [if_pos hepoch]; rfl⟩

theorem resolve_proved {f : ReplicaFence} {token : Int} {epoch : Uuid} {entry : TokenEntry}
    (h : f.resolve token epoch = .proved entry) :
    entry ∈ f.ring ∧ entry.token ≤ token ∧ (f.epoch = none ∨ f.epoch = some epoch) := by
  have hlookup : resolve.lookup f token = .proved entry →
      entry ∈ f.ring ∧ entry.token ≤ token := by
    intro hl
    unfold resolve.lookup at hl
    split at hl <;> rename_i hfind
    · cases hl
      exact ⟨List.mem_reverse.mp (List.mem_of_find?_eq_some hfind),
        by simpa using List.find?_some hfind⟩
    · cases hl
  unfold resolve at h
  split at h
  next e he =>
    split_ifs at h with hne
    rw [not_not] at hne
    exact ⟨(hlookup h).1, (hlookup h).2, Or.inr (by rw [he, hne])⟩
  next he => exact ⟨(hlookup h).1, (hlookup h).2, Or.inl he⟩

theorem resolve_newest {f : ReplicaFence} {epoch : Uuid} {last : TokenEntry}
    (hepoch : f.epoch = some epoch) (hlast : f.ring.getLast? = some last) :
    f.resolve last.token epoch = .proved last := by
  have hrev : f.ring.reverse.head? = some last := by rw [List.head?_reverse, hlast]
  unfold resolve resolve.lookup
  rw [hepoch]
  cases hr : f.ring.reverse with
  | nil => simp [hr] at hrev
  | cons x xs =>
    rw [hr, List.head?_cons, Option.some.injEq] at hrev
    subst hrev
    simp

end ReplicaFence

end Vingilot.Fence
