import Vingilot.Coordinator.Calls

/-!
# Fencing epochs (`coordinator/src/binding.rs`)

The epoch of a binding only grows, and each lease has one of its own. What is presented with an
older epoch is refused.
-/

namespace Vingilot.Coordinator

open Machine

def EpochsGrow (db db' : Db) : Prop :=
  ∀ id row, db.worktreeBindings.get? id = some row →
    ∃ row', db'.worktreeBindings.get? id = some row' ∧ row.epoch ≤ row'.epoch

theorem EpochsGrow.refl (db : Db) : EpochsGrow db db := fun _ row hrow => ⟨row, hrow, Int.le_refl _⟩

variable {db db' : Db} {row : WorktreeBinding}

theorem EpochsGrow.of_set {id : Uuid} {row' : WorktreeBinding}
    (hrow : db.worktreeBindings.get? id = some row)
    (hbindings : db'.worktreeBindings = db.worktreeBindings.set id row')
    (hle : row.epoch ≤ row'.epoch) : EpochsGrow db db' := by
  intro id' old hold
  rw [hbindings, Table.get?_set]
  by_cases hsame : id' = id
  · subst hsame
    obtain rfl : row = old := Option.some.inj (hrow.symm.trans hold)
    exact ⟨row', if_pos rfl, hle⟩
  · exact ⟨old, by rw [if_neg hsame]; exact hold, Int.le_refl _⟩

theorem BindingChange.epochsGrow {call : Call} (h : BindingChange db call db') :
    EpochsGrow db db' := by
  cases h with
  | same hbindings =>
    intro id row hrow
    exact ⟨row, by rw [hbindings]; exact hrow, Int.le_refl _⟩
  | created id runId new hnew hkey hbindings =>
    intro id' row hrow
    have hne : id' ≠ id := by
      rintro rfl
      rw [hnew] at hrow
      cases hrow
    exact ⟨row, by rw [hbindings, Table.get?_set, if_neg hne]; exact hrow, Int.le_refl _⟩
  | acquired id row ttlSecs now hcall hok hrow hbindings =>
    exact .of_set hrow hbindings (Int.le_add_one (Int.le_refl _))
  | renewed id row ttlSecs now hcall hrow hbindings => exact .of_set hrow hbindings (Int.le_refl _)
  | labelled id row lifecycle hrow hbindings => exact .of_set hrow hbindings (Int.le_refl _)

theorem epochsGrow_of_run {calls : List Call} (h : run step db calls = some db') :
    EpochsGrow db db' := by
  refine run_related EpochsGrow .refl ?_ ?_ h
  · intro s t u hst htu id row hrow
    obtain ⟨row', hrow', hle⟩ := hst id row hrow
    obtain ⟨row'', hrow'', hle'⟩ := htu id row' hrow'
    exact ⟨row'', hrow'', Int.le_trans hle hle'⟩
  · intro s call s' hstep
    cases hstep
    exact (call.change s).bindings.epochsGrow

theorem validateOp_ok_iff (db : Db) (runId bindingId : Uuid) (epoch now : Int) :
    validateOp db runId bindingId epoch now = .ok () ↔
      ∃ row expiresAt, db.worktreeBindings.get? bindingId = some row ∧
        row.ownerRunId = some runId ∧ row.lifecycle = .ready ∧ row.epoch = epoch ∧
        row.leaseExpiresAt = some expiresAt ∧ now < expiresAt := by
  unfold validateOp
  cases hrow : db.worktreeBindings.get? bindingId with
  | none => simp
  | some row =>
    simp only [Option.some.injEq, exists_and_left, exists_eq_left']
    by_cases howner : row.ownerRunId = some runId
    · by_cases hready : row.lifecycle = .ready
      · by_cases hepoch : row.epoch = epoch
        · simp only [howner, hready, hepoch, ne_eq, not_true_eq_false, if_false, true_and]
          cases row.leaseExpiresAt with
          | none => simp
          | some expiresAt =>
            by_cases hrunning : now < expiresAt
            · simp [hrunning]
            · simp [hrunning]
        · simp [howner, hready, hepoch]
      · simp [howner, hready]
    · simp [howner]

theorem validateOp_stale {runId bindingId : Uuid} {epoch now : Int}
    (hrow : db.worktreeBindings.get? bindingId = some row) (hstale : epoch < row.epoch) :
    ∃ denied, validateOp db runId bindingId epoch now = .error denied := by
  cases h : validateOp db runId bindingId epoch now with
  | error denied => exact ⟨denied, rfl⟩
  | ok =>
    obtain ⟨row', -, hrow', -, -, hepoch, -⟩ := (validateOp_ok_iff ..).mp h
    obtain rfl : row = row' := Option.some.inj (hrow.symm.trans hrow')
    omega

theorem renewLease_stale {bindingId : Uuid} {epoch ttlSecs now : Int}
    (hrow : db.worktreeBindings.get? bindingId = some row) (hstale : epoch < row.epoch) :
    renewLease db bindingId epoch ttlSecs now = .error (.staleEpoch bindingId row.epoch epoch) := by
  have hne : row.epoch ≠ epoch := by omega
  unfold renewLease
  simp [hrow, hne]

/-- Once a lease is given out, every later lease of the binding has a greater epoch, and every
operation and every renewal with a smaller one is refused. -/
theorem lease_fences {calls : List Call} {db db₁ db₂ : Db} {bindingId : Uuid}
    {ttlSecs now : Int} {lease : Lease}
    (hacquired : acquireLease db bindingId ttlSecs now = .ok (db₁, lease))
    (hrun : run step db₁ calls = some db₂) :
    (∀ ttlSecs' now' db₃ lease', acquireLease db₂ bindingId ttlSecs' now' = .ok (db₃, lease') →
      lease.epoch < lease'.epoch) ∧
    (∀ runId epoch now', epoch < lease.epoch →
      ∃ denied, validateOp db₂ runId bindingId epoch now' = .error denied) ∧
    (∀ epoch ttlSecs' now', epoch < lease.epoch →
      ∃ error, renewLease db₂ bindingId epoch ttlSecs' now' = .error error) ∧
    ∀ runId epoch now', validateOp db₂ runId bindingId epoch now' = .ok () ↔
      ∃ row expiresAt, db₂.worktreeBindings.get? bindingId = some row ∧
        row.ownerRunId = some runId ∧ row.lifecycle = .ready ∧ row.epoch = epoch ∧
        row.leaseExpiresAt = some expiresAt ∧ now' < expiresAt := by
  obtain ⟨row, hrow, rfl, rfl⟩ := acquireLease_ok hacquired
  obtain ⟨row', hrow', hle⟩ := epochsGrow_of_run hrun bindingId _
    (by rw [Table.get?_set, if_pos rfl])
  simp only at hle
  refine ⟨?_, ?_, ?_, fun runId epoch now' => validateOp_ok_iff ..⟩
  · intro ttlSecs' now' db₃ lease' hagain
    obtain ⟨row'', hrow'', rfl, -⟩ := acquireLease_ok hagain
    obtain rfl : row' = row'' := Option.some.inj (hrow'.symm.trans hrow'')
    simp only
    omega
  · intro runId epoch now' hstale
    simp only at hstale
    exact validateOp_stale hrow' (by omega)
  · intro epoch ttlSecs' now' hstale
    simp only at hstale
    exact ⟨_, renewLease_stale hrow' (by omega)⟩

def provisioned : List Call :=
  [.insertWorkspace 7 ⟨0, .obj [], ""⟩, .create 1 ⟨7, none, "fix it", .delegated, none⟩,
    .createBinding 5 1 ⟨"buzz", "local", "task", "abc", none, "key"⟩]

theorem lease_fences_owner : ∃ db₁ db₂ : Db, ∃ lease : Lease,
    (∃ db, acquireLease db 5 90 0 = .ok (db₁, lease)) ∧ lease.epoch = 1 ∧
    validateOp db₁ 1 5 1 40 = .ok () ∧
    (∃ db₃ lease', acquireLease db₂ 5 90 200 = .ok (db₃, lease') ∧ lease.epoch < lease'.epoch) ∧
    (∃ denied, validateOp db₂ 1 5 0 10 = .error denied) ∧
    (∃ error, renewLease db₂ 5 0 90 10 = .error error) := by
  have hrun : ((run step Db.empty provisioned).any fun db =>
      (acquireLease db 5 90 0).toOption.any fun x =>
      (run step x.1 [.renewLease 5 1 90 30, .quarantineReady 5, .acquireLease 5 90 60]).any fun db₂ =>
        (acquireLease db₂ 5 90 200).toOption.any fun _ =>
          x.2.epoch == 1 && validateOp x.1 1 5 1 40 == .ok ()) = true := by decide +kernel
  obtain ⟨db, -, h⟩ := (Option.any_eq_true _ _).mp hrun
  obtain ⟨⟨db₁, lease⟩, hlease, h⟩ := (Option.any_eq_true _ _).mp h
  obtain ⟨db₂, hrest, h⟩ := (Option.any_eq_true _ _).mp h
  obtain ⟨⟨db₃, lease'⟩, hagain, h⟩ := (Option.any_eq_true _ _).mp h
  simp only [Bool.and_eq_true, beq_iff_eq] at h
  obtain ⟨hone, hvalid⟩ := h
  obtain ⟨hmore, hops, hrenewals, -⟩ := lease_fences (eq_ok_of_toOption hlease) hrest
  refine ⟨db₁, db₂, lease, ⟨db, eq_ok_of_toOption hlease⟩, hone, hvalid, ⟨db₃, lease', ?_⟩, ?_, ?_⟩
  · exact ⟨eq_ok_of_toOption hagain, hmore 90 200 db₃ lease' (eq_ok_of_toOption hagain)⟩
  · exact hops 1 0 10 (by omega)
  · exact hrenewals 0 90 10 (by omega)

end Vingilot.Coordinator
