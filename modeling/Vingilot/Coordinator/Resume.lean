import Vingilot.Coordinator.Saga

/-!
# Calls that resume (`coordinator/src/saga.rs`)

A call that finds its Run in `Provisioning` goes through all the worktrees again and takes each
binding that it finds under the key as it is.
-/

namespace Vingilot.Coordinator.Saga

open Machine

variable {spec : ProvisionSpec} {db db' : Db} {now : Int} {runId b : Uuid} {wt : WorktreeSpec}

/-! ## What a worktree needs -/

structure Bound (db : Db) (runId : Uuid) (wt : WorktreeSpec) (b : Uuid) (row : WorktreeBinding) :
    Prop where
  here : db.worktreeBindings.get? b = some row
  key : row.idempotencyKey = wt.idempotencyKey
  owner : row.ownerRunId = some runId
  ready : row.lifecycle = .ready

def Granted (db : Db) (runId : Uuid) (wt : WorktreeSpec) (b : Uuid) : Prop :=
  db.runWorktreeGrants.get? (runId, b) = some wt.access

def Held (db : Db) (now : Int) (runId : Uuid) (wt : WorktreeSpec) : Prop :=
  ∃ b row, Bound db runId wt b row ∧ Granted db runId wt b ∧ leaseActive row now = true

def Provisioned (db : Db) (now : Int) (runId : Uuid) (wt : WorktreeSpec) : Prop :=
  ∃ b row, Bound db runId wt b row ∧ Granted db runId wt b ∧ leaseActive row now = true ∧
    ∀ b' row', db.worktreeBindings.get? b' = some row' →
      row'.idempotencyKey = wt.idempotencyKey → b' = b

/-- The index on `idempotency_key` is unique. -/
def KeysUnique (db : Db) : Prop :=
  ∀ b b' row row', db.worktreeBindings.get? b = some row → db.worktreeBindings.get? b' = some row' →
    row.idempotencyKey = row'.idempotencyKey → b = b'

theorem Held.provisioned (h : Held db now runId wt) (hkeys : KeysUnique db) :
    Provisioned db now runId wt := by
  obtain ⟨b, row, hbound, hgranted, hactive⟩ := h
  exact ⟨b, row, hbound, hgranted, hactive,
    fun b' row' hrow' hkey => hkeys b' b row' row hrow' hbound.here (hkey.trans hbound.key.symm)⟩

def Ready (db : Db) (runId : Uuid) : Prop :=
  ∃ row, db.runs.get? runId = some row ∧ row.status = .ready

/-! ## The condition -/

def Stage.ahead : Stage → Option (List WorktreeSpec)
  | .create wt todo => some (wt :: todo)
  | .owner _ wt todo => some (wt :: todo)
  | .grant _ wt todo => some (wt :: todo)
  | .hasActive _ wt todo => some (wt :: todo)
  | .acquire _ wt todo => some (wt :: todo)
  | .finish => some []
  | _ => none

/-- The worktrees that no call will look at again before it returns `Ok`. -/
def settled (spec : ProvisionSpec) (w : World) : List WorktreeSpec :=
  if (w.db.runs.get? spec.runId).any (·.status = .ready) then spec.worktrees
  else
    match w.call.bind Stage.ahead with
    | some todo => spec.worktrees.take (spec.worktrees.length - todo.length)
    | none => []

def reusable (db : Db) (runId : Uuid) (wt : WorktreeSpec) : Bool :=
  match db.bindingOfKey wt.idempotencyKey with
  | none => true
  | some b =>
    (db.worktreeBindings.get? b).all fun row =>
      row.ownerRunId ≠ some runId || row.lifecycle = .ready

/-- No other client moves the Run. The lease of a worktree that is settled does not run out, and no
binding of the Run that was walked back is taken again. -/
def resumes (spec : ProvisionSpec) (w : World) : Action → Bool
  | .tick micros =>
    w.db.worktreeBindings.toList.all fun x =>
      (settled spec w).all fun wt => x.2.idempotencyKey ≠ wt.idempotencyKey ||
        !leaseActive x.2 w.clock || leaseActive x.2 (w.clock + micros)
  | .transition runId _ _ => runId ≠ spec.runId
  | .exec _ =>
    match w.call with
    | some (.create wt _) => reusable w.db spec.runId wt
    | _ => true
  | _ => true

/-! ## Rows that are found by their key -/

theorem bindingOfKey_some {key : String} (h : db.bindingOfKey key = some b) :
    ∃ row, db.worktreeBindings.get? b = some row ∧ row.idempotencyKey = key := by
  obtain ⟨⟨b', row⟩, hfind, rfl⟩ := Option.map_eq_some_iff.mp h
  exact ⟨row, (Table.mem_toList ..).mp (List.mem_of_find?_eq_some hfind),
    by simpa using List.find?_some hfind⟩

variable {row : WorktreeBinding}

theorem bindingOfKey_none {key : String} (h : db.bindingOfKey key = none)
    (hrow : db.worktreeBindings.get? b = some row) : row.idempotencyKey ≠ key := by
  have hnone := List.find?_eq_none.mp (Option.map_eq_none_iff.mp h)
  simpa using hnone (b, row) ((Table.mem_toList ..).mpr hrow)

theorem KeysUnique.of_same (h : KeysUnique db)
    (hsame : db'.worktreeBindings = db.worktreeBindings) : KeysUnique db' := by
  intro b b' row row' hrow hrow' hkey
  rw [hsame] at hrow hrow'
  exact h b b' row row' hrow hrow' hkey

variable {new : WorktreeBinding}

theorem KeysUnique.update (h : KeysUnique db) (hrow : db.worktreeBindings.get? b = some row)
    (hset : db'.worktreeBindings = db.worktreeBindings.set b new)
    (hkey : new.idempotencyKey = row.idempotencyKey) : KeysUnique db' := by
  have hold : ∀ c r, db'.worktreeBindings.get? c = some r →
      ∃ r', db.worktreeBindings.get? c = some r' ∧ r.idempotencyKey = r'.idempotencyKey := by
    intro c r hr
    rw [hset, Table.get?_set] at hr
    split_ifs at hr with hc
    · cases hr
      subst hc
      exact ⟨row, hrow, hkey⟩
    · exact ⟨r, hr, rfl⟩
  intro c c' r r' hr hr' heq
  obtain ⟨s, hs, hks⟩ := hold c r hr
  obtain ⟨s', hs', hks'⟩ := hold c' r' hr'
  exact h c c' s s' hs hs' (hks.symm.trans (heq.trans hks'))

theorem KeysUnique.insert (h : KeysUnique db) (hfree : db.bindingOfKey new.idempotencyKey = none)
    (hset : db'.worktreeBindings = db.worktreeBindings.set b new) : KeysUnique db' := by
  intro c c' r r' hr hr' heq
  rw [hset, Table.get?_set] at hr hr'
  split_ifs at hr hr' with hc hc' hc'
  · exact hc.trans hc'.symm
  · cases hr
    exact absurd heq.symm (bindingOfKey_none hfree hr')
  · cases hr'
    exact absurd heq (bindingOfKey_none hfree hr)
  · exact h c c' r r' hr hr' heq

theorem KeysUnique.change {call : Call} (h : KeysUnique db) (hchange : BindingChange db call db') :
    KeysUnique db' := by
  cases hchange with
  | same hbindings => exact h.of_same hbindings
  | created id runId new hnew hkey hbindings => exact h.insert hkey hbindings
  | acquired id row ttlSecs now hcall hok hrow hbindings => exact h.update hrow hbindings rfl
  | renewed id row ttlSecs now hcall hrow hbindings => exact h.update hrow hbindings rfl
  | labelled id row lifecycle hrow hbindings => exact h.update hrow hbindings rfl

theorem Stage.exec_call (stage : Stage) (now : Int) (id : Uuid) :
    (stage.exec spec db now id).1 = db ∨
      ∃ c : Call, (stage.exec spec db now id).1 = c.apply db := by
  cases stage with
  | readStatus =>
    simp only [Stage.exec]
    split
    · exact .inl rfl
    · split <;> exact .inl rfl
  | enter =>
    refine .inr ⟨.transition spec.runId .provisioning "provisioning started" now, ?_⟩
    simp only [Stage.exec, Call.apply]
    cases Run.transition db spec.runId .provisioning "provisioning started" now <;> rfl
  | create wt todo =>
    refine .inr ⟨.createBinding id spec.runId wt.new, ?_⟩
    simp only [Stage.exec, Call.apply]
    cases createBinding db id spec.runId wt.new <;> rfl
  | owner bindingId wt todo =>
    simp only [Stage.exec]
    split
    · exact .inl rfl
    · split_ifs <;> exact .inl rfl
  | grant bindingId wt todo =>
    refine .inr ⟨.grant spec.runId bindingId wt.access, ?_⟩
    simp only [Stage.exec, Call.apply]
    cases Coordinator.grant db spec.runId bindingId wt.access <;> rfl
  | hasActive bindingId wt todo =>
    simp only [Stage.exec]
    split <;> exact .inl rfl
  | acquire bindingId wt todo =>
    refine .inr ⟨.acquireLease bindingId provisionLeaseTtlSecs now, ?_⟩
    simp only [Stage.exec, Call.apply]
    cases acquireLease db bindingId provisionLeaseTtlSecs now <;> rfl
  | finish =>
    refine .inr ⟨.transition spec.runId .ready "provisioning complete" now, ?_⟩
    simp only [Stage.exec, Call.apply]
    cases Run.transition db spec.runId .ready "provisioning complete" now <;> rfl
  | revoke error => exact .inr ⟨.revokeGrants spec.runId, rfl⟩
  | listBindings error => exact .inl rfl
  | label error bindingId lifecycle todo =>
    exact .inr ⟨.setLifecycle bindingId (walkBack lifecycle), rfl⟩
  | readFailed error =>
    simp only [Stage.exec]
    split <;> exact .inl rfl
  | fail error =>
    refine .inr ⟨.transition spec.runId .failed "provisioning saga compensated" now, ?_⟩
    simp only [Stage.exec, Call.apply]
    cases Run.transition db spec.runId .failed "provisioning saga compensated" now <;> rfl

theorem KeysUnique.exec (h : KeysUnique db) (stage : Stage) (id : Uuid) :
    KeysUnique (stage.exec spec db now id).1 := by
  rcases stage.exec_call now id with hsame | ⟨c, hcall⟩
  · rw [hsame]; exact h
  · rw [hcall]; exact h.change (c.change db).bindings

/-! ## Worktrees that are held -/

variable {x : WorktreeSpec}

theorem Held.insert (h : Held db now runId x) (hfree : db.worktreeBindings.get? b = none) :
    Held { db with worktreeBindings := db.worktreeBindings.set b new } now runId x := by
  obtain ⟨c, row, hbound, hgranted, hactive⟩ := h
  have hne : c ≠ b := by
    rintro rfl
    rw [hbound.here] at hfree
    cases hfree
  refine ⟨c, row, ⟨?_, hbound.key, hbound.owner, hbound.ready⟩, hgranted, hactive⟩
  simp only [Table.get?_set, if_neg hne, hbound.here]

theorem Held.grant (h : Held db now runId x) (hbound : Bound db runId wt b row)
    (hone : x.idempotencyKey = wt.idempotencyKey → x.access = wt.access) :
    Held { db with runWorktreeGrants := db.runWorktreeGrants.set (runId, b) wt.access } now runId
      x := by
  obtain ⟨c, r, hx, hgranted, hactive⟩ := h
  refine ⟨c, r, ⟨hx.here, hx.key, hx.owner, hx.ready⟩, ?_, hactive⟩
  simp only [Granted, Table.get?_set]
  split_ifs with hc
  · cases hc
    obtain rfl : row = r := Option.some.inj (hbound.here.symm.trans hx.here)
    rw [hone (hx.key.symm.trans hbound.key)]
  · exact hgranted

theorem Held.acquire {epoch expiresAt : Int} (h : Held db now runId x)
    (hrow : db.worktreeBindings.get? b = some row) (hlater : now < expiresAt) : Held { db with
      worktreeBindings := db.worktreeBindings.set b
        { row with epoch := epoch, leaseExpiresAt := some expiresAt } } now runId x := by
  obtain ⟨c, r, hx, hgranted, hactive⟩ := h
  by_cases hc : c = b
  · subst hc
    obtain rfl : row = r := Option.some.inj (hrow.symm.trans hx.here)
    refine ⟨c, { row with epoch := epoch, leaseExpiresAt := some expiresAt },
      ⟨?_, hx.key, hx.owner, hx.ready⟩, hgranted, decide_eq_true hlater⟩
    exact (Table.get?_set ..).trans (if_pos rfl)
  · refine ⟨c, r, ⟨?_, hx.key, hx.owner, hx.ready⟩, hgranted, hactive⟩
    simp only [Table.get?_set, if_neg hc, hx.here]

/-- The worktrees before `todo` are held. -/
def DoneBefore (spec : ProvisionSpec) (db : Db) (now : Int) (todo : List WorktreeSpec) : Prop :=
  ∃ before, spec.worktrees = before ++ todo ∧ ∀ x ∈ before, Held db now spec.runId x

theorem DoneBefore.mono {now' : Int} {todo : List WorktreeSpec} (h : DoneBefore spec db now todo)
    (hmono : ∀ x ∈ spec.worktrees, Held db now spec.runId x → Held db' now' spec.runId x) :
    DoneBefore spec db' now' todo := by
  obtain ⟨before, hsplit, hheld⟩ := h
  refine ⟨before, hsplit, fun x hx => hmono x ?_ (hheld x hx)⟩
  rw [hsplit]
  exact List.mem_append_left todo hx

theorem DoneBefore.next {todo : List WorktreeSpec} (h : DoneBefore spec db now (wt :: todo))
    (hheld : Held db now spec.runId wt) : DoneBefore spec db now todo := by
  obtain ⟨before, hsplit, hbefore⟩ := h
  refine ⟨before ++ [wt], by rw [hsplit]; simp, fun x hx => ?_⟩
  rcases List.mem_append.mp hx with hx | hx
  · exact hbefore x hx
  · cases List.mem_singleton.mp hx
    exact hheld

theorem DoneBefore.mem {todo : List WorktreeSpec} (h : DoneBefore spec db now (wt :: todo)) :
    wt ∈ spec.worktrees := by
  obtain ⟨before, hsplit, -⟩ := h
  rw [hsplit]
  exact List.mem_append_right before (List.mem_cons_self ..)

theorem DoneBefore.all (h : DoneBefore spec db now []) :
    ∀ x ∈ spec.worktrees, Held db now spec.runId x := by
  obtain ⟨before, hsplit, hheld⟩ := h
  rw [hsplit, List.append_nil]
  exact hheld

/-! ## The loop -/

def Progress (spec : ProvisionSpec) (db : Db) (now : Int) : Stage → Prop
  | .create wt todo => DoneBefore spec db now (wt :: todo)
  | .owner b wt todo =>
    DoneBefore spec db now (wt :: todo) ∧ ∃ row, db.worktreeBindings.get? b = some row ∧
      row.idempotencyKey = wt.idempotencyKey ∧
      (row.ownerRunId = some spec.runId → row.lifecycle = .ready)
  | .grant b wt todo =>
    DoneBefore spec db now (wt :: todo) ∧ ∃ row, Bound db spec.runId wt b row
  | .hasActive b wt todo =>
    DoneBefore spec db now (wt :: todo) ∧ (∃ row, Bound db spec.runId wt b row) ∧
      Granted db spec.runId wt b
  | .acquire b wt todo =>
    DoneBefore spec db now (wt :: todo) ∧ (∃ row, Bound db spec.runId wt b row) ∧
      Granted db spec.runId wt b
  | .finish => DoneBefore spec db now []
  | _ => True

theorem progress_nextWorktree {todo : List WorktreeSpec} (h : DoneBefore spec db now todo) :
    Progress spec db now (nextWorktree todo) := by
  cases todo <;> exact h

theorem progress_nextBinding (error : SagaError) (todo : List (Uuid × Lifecycle)) :
    Progress spec db now (nextBinding error todo) := by
  cases todo <;> trivial

theorem doneBefore_worktrees (spec : ProvisionSpec) (db : Db) (now : Int) :
    DoneBefore spec db now spec.worktrees :=
  ⟨[], rfl, fun _ hx => by cases hx⟩

/-- What is known when a statement leads to another one, or to `Ok`. -/
def Reaches (spec : ProvisionSpec) (db : Db) (now : Int) : Next → Prop
  | .go stage => Progress spec db now stage
  | .done (.ok ()) => Ready db spec.runId
  | .done (.error _) => True

def OneAccess (spec : ProvisionSpec) : Prop :=
  ∀ x ∈ spec.worktrees, ∀ y ∈ spec.worktrees, x.idempotencyKey = y.idempotencyKey →
    x.access = y.access

section Statements

variable {todo : List WorktreeSpec}

theorem create_reaches (h : DoneBefore spec db now (wt :: todo))
    (hreusable : reusable db spec.runId wt = true) (id : Uuid) :
    Reaches spec ((Stage.create wt todo).exec spec db now id).1 now
      ((Stage.create wt todo).exec spec db now id).2 := by
  simp only [Stage.exec]
  cases hok : createBinding db id spec.runId wt.new with
  | error e => trivial
  | ok p =>
    obtain ⟨db', b⟩ := p
    rcases createBinding_ok hok with ⟨hfound, rfl⟩ | ⟨hnone, hfree, rfl, rfl⟩
    · obtain ⟨row, hrow, hkey⟩ := bindingOfKey_some hfound
      refine ⟨h, row, hrow, hkey, fun howner => ?_⟩
      have hfound : db'.bindingOfKey wt.idempotencyKey = some b := hfound
      simpa [reusable, hfound, hrow, howner] using hreusable
    · exact ⟨h.mono fun x _ hx => hx.insert hfree, wt.new.row spec.runId,
        (Table.get?_set ..).trans (if_pos rfl), rfl, fun _ => rfl⟩

theorem owner_reaches (h : Progress spec db now (.owner b wt todo)) (id : Uuid) :
    Reaches spec ((Stage.owner b wt todo).exec spec db now id).1 now
      ((Stage.owner b wt todo).exec spec db now id).2 := by
  obtain ⟨hdone, row, hrow, hkey, hready⟩ := h
  simp only [Stage.exec, hrow]
  split_ifs with howner
  · exact ⟨hdone, row, hrow, hkey, howner, hready howner⟩
  · trivial

theorem grant_reaches (h : Progress spec db now (.grant b wt todo)) (hone : OneAccess spec)
    (id : Uuid) :
    Reaches spec ((Stage.grant b wt todo).exec spec db now id).1 now
      ((Stage.grant b wt todo).exec spec db now id).2 := by
  obtain ⟨hdone, row, hbound⟩ := h
  simp only [Stage.exec]
  cases hok : Coordinator.grant db spec.runId b wt.access with
  | error e => trivial
  | ok db' =>
    obtain rfl := grant_ok hok
    exact ⟨hdone.mono fun x hx hheld => hheld.grant hbound (hone x hx wt hdone.mem),
      ⟨row, hbound.here, hbound.key, hbound.owner, hbound.ready⟩,
      (Table.get?_set ..).trans (if_pos rfl)⟩

theorem hasActive_reaches (h : Progress spec db now (.hasActive b wt todo)) (id : Uuid) :
    Reaches spec ((Stage.hasActive b wt todo).exec spec db now id).1 now
      ((Stage.hasActive b wt todo).exec spec db now id).2 := by
  obtain ⟨hdone, ⟨row, hbound⟩, hgranted⟩ := h
  simp only [Stage.exec, hbound.here]
  split_ifs with hactive
  · exact progress_nextWorktree (hdone.next ⟨b, row, hbound, hgranted, hactive⟩)
  · exact ⟨hdone, ⟨row, hbound⟩, hgranted⟩

theorem acquire_reaches (h : Progress spec db now (.acquire b wt todo)) (id : Uuid) :
    Reaches spec ((Stage.acquire b wt todo).exec spec db now id).1 now
      ((Stage.acquire b wt todo).exec spec db now id).2 := by
  obtain ⟨hdone, ⟨row, hbound⟩, hgranted⟩ := h
  simp only [Stage.exec]
  cases hok : acquireLease db b provisionLeaseTtlSecs now with
  | error e => trivial
  | ok p =>
    obtain ⟨db', lease⟩ := p
    obtain ⟨old, hold, -, rfl⟩ := acquireLease_ok hok
    obtain rfl : row = old := Option.some.inj (hbound.here.symm.trans hold)
    have hlater : now < now + secs provisionLeaseTtlSecs := by
      have : (0 : Int) < secs provisionLeaseTtlSecs := by decide
      omega
    refine progress_nextWorktree ((hdone.mono fun x _ hx => hx.acquire hold hlater).next ?_)
    exact ⟨b, { row with epoch := row.epoch + 1, leaseExpiresAt := some _ },
      ⟨(Table.get?_set ..).trans (if_pos rfl), hbound.key, hbound.owner, hbound.ready⟩, hgranted,
      decide_eq_true hlater⟩

end Statements

variable {stage : Stage}

theorem Stage.exec_reaches (h : Progress spec db now stage) (hone : OneAccess spec)
    (hcreate : ∀ wt todo, stage = .create wt todo → reusable db spec.runId wt = true) (id : Uuid) :
    Reaches spec (stage.exec spec db now id).1 now (stage.exec spec db now id).2 := by
  cases stage with
  | readStatus =>
    simp only [Stage.exec]
    cases hrow : db.runs.get? spec.runId with
    | none => trivial
    | some row =>
      cases hstatus : row.status <;> simp only [hstatus]
      case ready => exact ⟨row, hrow, hstatus⟩
      case provisioning => exact progress_nextWorktree (doneBefore_worktrees spec db now)
      all_goals trivial
  | enter =>
    simp only [Stage.exec]
    cases Run.transition db spec.runId .provisioning "provisioning started" now with
    | error e => trivial
    | ok db' => exact progress_nextWorktree (doneBefore_worktrees spec db' now)
  | create wt todo => exact create_reaches h (hcreate wt todo rfl) id
  | owner b wt todo => exact owner_reaches h id
  | grant b wt todo => exact grant_reaches h hone id
  | hasActive b wt todo => exact hasActive_reaches h id
  | acquire b wt todo => exact acquire_reaches h id
  | finish =>
    simp only [Stage.exec]
    cases hok : Run.transition db spec.runId .ready "provisioning complete" now with
    | error e => trivial
    | ok db' =>
      obtain ⟨row, -, -, rfl⟩ := Run.transition_ok hok
      exact ⟨row.enter .ready now, (Table.get?_set ..).trans (if_pos rfl), Run.enter_status ..⟩
  | revoke error => trivial
  | listBindings error => exact progress_nextBinding error _
  | label error b lifecycle todo => exact progress_nextBinding error todo
  | readFailed error =>
    simp only [Stage.exec]
    split
    · trivial
    · split_ifs <;> trivial
  | fail error =>
    simp only [Stage.exec]
    cases Run.transition db spec.runId .failed "provisioning saga compensated" now <;> trivial

/-! ## The Run -/

variable {toStatus : RunStatus}

theorem not_ready_entered {row : Run} {runs : Table Uuid Run} (hne : toStatus ≠ .ready)
    (hruns : db.runs = runs.set runId (row.enter toStatus now)) : ¬ Ready db runId := by
  rintro ⟨row', hrow', hready⟩
  rw [hruns, Table.get?_set, if_pos rfl] at hrow'
  cases hrow'
  exact hne ((row.enter_status toStatus now).symm.trans hready)

variable {id : Uuid}

theorem Stage.exec_ready (h : Ready (stage.exec spec db now id).1 spec.runId) :
    Ready db spec.runId ∨ stage = .finish := by
  cases stage with
  | readStatus =>
    refine .inl ?_
    simp only [Stage.exec] at h
    split at h
    · exact h
    · split at h <;> exact h
  | enter =>
    simp only [Stage.exec] at h
    cases hok : Run.transition db spec.runId .provisioning "provisioning started" now with
    | error e => rw [hok] at h; exact .inl h
    | ok db' =>
      rw [hok] at h
      obtain ⟨row, -, -, rfl⟩ := Run.transition_ok hok
      exact absurd h (not_ready_entered (by decide) rfl)
  | create wt todo =>
    refine .inl ?_
    simp only [Stage.exec] at h
    cases hok : createBinding db id spec.runId wt.new with
    | error e => rw [hok] at h; exact h
    | ok p =>
      rw [hok] at h
      obtain ⟨db', b⟩ := p
      rcases createBinding_ok hok with ⟨-, rfl⟩ | ⟨-, -, -, rfl⟩ <;> exact h
  | owner b wt todo =>
    refine .inl ?_
    simp only [Stage.exec] at h
    split at h
    · exact h
    · split_ifs at h <;> exact h
  | grant b wt todo =>
    refine .inl ?_
    simp only [Stage.exec] at h
    cases hok : Coordinator.grant db spec.runId b wt.access with
    | error e => rw [hok] at h; exact h
    | ok db' =>
      rw [hok] at h
      obtain rfl := grant_ok hok
      exact h
  | hasActive b wt todo =>
    refine .inl ?_
    simp only [Stage.exec] at h
    split at h <;> exact h
  | acquire b wt todo =>
    refine .inl ?_
    simp only [Stage.exec] at h
    cases hok : acquireLease db b provisionLeaseTtlSecs now with
    | error e => rw [hok] at h; exact h
    | ok p =>
      rw [hok] at h
      obtain ⟨db', lease⟩ := p
      obtain ⟨row, -, -, rfl⟩ := acquireLease_ok hok
      exact h
  | finish => exact .inr rfl
  | revoke error => exact .inl h
  | listBindings error => exact .inl h
  | label error b lifecycle todo =>
    simp only [Stage.exec] at h
    rcases setLifecycle_cases db b (walkBack lifecycle) with ⟨hsame, -⟩ | ⟨row, -, hset⟩
    · rw [hsame] at h; exact .inl h
    · rw [hset] at h; exact .inl h
  | readFailed error =>
    refine .inl ?_
    simp only [Stage.exec] at h
    split at h <;> exact h
  | fail error =>
    simp only [Stage.exec] at h
    cases hok : Run.transition db spec.runId .failed "provisioning saga compensated" now with
    | error e => rw [hok] at h; exact .inl h
    | ok db' =>
      rw [hok] at h
      obtain ⟨row, -, -, rfl⟩ := Run.transition_ok hok
      exact absurd h (not_ready_entered (by decide) rfl)

theorem Stage.exec_moving {next : Stage} (hmoving : stage.moved = true → ¬ Ready db spec.runId)
    (hnext : (stage.exec spec db now id).2 = .go next) :
    ¬ Ready (stage.exec spec db now id).1 spec.runId := by
  intro hready
  rcases Stage.exec_ready hready with hbefore | rfl
  · cases stage with
    | readStatus =>
      obtain ⟨row, hrow, hstatus⟩ := hbefore
      simp only [Stage.exec, hrow, hstatus] at hnext
      cases hnext
    | enter =>
      simp only [Stage.exec] at hnext hready
      cases hok : Run.transition db spec.runId .provisioning "provisioning started" now with
      | error e => rw [hok] at hnext; cases hnext
      | ok db' =>
        rw [hok] at hready
        obtain ⟨row, -, -, rfl⟩ := Run.transition_ok hok
        exact not_ready_entered (by decide) rfl hready
    | _ => exact hmoving rfl hbefore
  · simp only [Stage.exec] at hnext
    cases hok : Run.transition db spec.runId .ready "provisioning complete" now <;>
      rw [hok] at hnext <;> cases hnext

theorem Held.transition {reason : String} (h : Held db now runId x)
    (hok : Run.transition db id toStatus reason now = .ok db') : Held db' now runId x := by
  obtain ⟨row, -, -, rfl⟩ := Run.transition_ok hok
  obtain ⟨b, row, hbound, hgranted, hactive⟩ := h
  exact ⟨b, row, ⟨hbound.here, hbound.key, hbound.owner, hbound.ready⟩, hgranted, hactive⟩

def Settled (spec : ProvisionSpec) (db : Db) (now : Int) : Prop :=
  Ready db spec.runId → ∀ x ∈ spec.worktrees, Held db now spec.runId x

theorem Stage.exec_settled (hsettled : Settled spec db now)
    (hmoving : stage.moved = true → ¬ Ready db spec.runId) (hprogress : Progress spec db now stage)
    (id : Uuid) : Settled spec (stage.exec spec db now id).1 now := by
  intro hready x hx
  rcases Stage.exec_ready hready with hbefore | rfl
  · have hheld := hsettled hbefore x hx
    cases stage with
    | readStatus =>
      simp only [Stage.exec]
      split
      · exact hheld
      · split <;> exact hheld
    | enter =>
      simp only [Stage.exec]
      cases hok : Run.transition db spec.runId .provisioning "provisioning started" now with
      | error e => exact hheld
      | ok db' => exact hheld.transition hok
    | _ => exact absurd hbefore (hmoving rfl)
  · have hheld := DoneBefore.all hprogress x hx
    simp only [Stage.exec]
    cases hok : Run.transition db spec.runId .ready "provisioning complete" now with
    | error e => exact hheld
    | ok db' => exact hheld.transition hok

/-! ## Runs -/

structure Resumed (spec : ProvisionSpec) (w : World) : Prop where
  keys : KeysUnique w.db
  settled : Settled spec w.db w.clock
  moving : ∀ stage, w.call = some stage → stage.moved = true → ¬ Ready w.db spec.runId
  progress : ∀ stage, w.call = some stage → Progress spec w.db w.clock stage
  returned : ∀ r, w.returned = some r → r.result = .ok () → Ready w.db spec.runId

theorem Progress.mono {now' : Int} (h : Progress spec db now stage)
    (hbindings : db'.worktreeBindings = db.worktreeBindings)
    (hgrants : db'.runWorktreeGrants = db.runWorktreeGrants)
    (hdone : ∀ todo, stage.ahead = some todo → DoneBefore spec db now todo →
      DoneBefore spec db' now' todo) : Progress spec db' now' stage := by
  have hbound : ∀ {b wt row}, Bound db spec.runId wt b row → Bound db' spec.runId wt b row :=
    fun h => ⟨by rw [hbindings]; exact h.here, h.key, h.owner, h.ready⟩
  have hgranted : ∀ {b wt}, Granted db spec.runId wt b → Granted db' spec.runId wt b := by
    intro b wt h
    rw [Granted, hgrants]
    exact h
  cases stage with
  | create wt todo => exact hdone _ rfl h
  | owner b wt todo =>
    obtain ⟨hbefore, row, hrow, hkey, hready⟩ := h
    exact ⟨hdone _ rfl hbefore, row, by rw [hbindings]; exact hrow, hkey, hready⟩
  | grant b wt todo =>
    obtain ⟨hbefore, row, hrow⟩ := h
    exact ⟨hdone _ rfl hbefore, row, hbound hrow⟩
  | hasActive b wt todo =>
    obtain ⟨hbefore, ⟨row, hrow⟩, hgrant⟩ := h
    exact ⟨hdone _ rfl hbefore, ⟨row, hbound hrow⟩, hgranted hgrant⟩
  | acquire b wt todo =>
    obtain ⟨hbefore, ⟨row, hrow⟩, hgrant⟩ := h
    exact ⟨hdone _ rfl hbefore, ⟨row, hbound hrow⟩, hgranted hgrant⟩
  | finish => exact hdone _ rfl h
  | _ => trivial

variable {w : World}

theorem held_tick {micros : Nat} (hcond : resumes spec w (.tick micros) = true)
    (hwt : wt ∈ settled spec w) (h : Held w.db w.clock runId wt) :
    Held w.db (w.clock + micros) runId wt := by
  obtain ⟨b, row, hbound, hgranted, hactive⟩ := h
  refine ⟨b, row, hbound, hgranted, ?_⟩
  have hall := List.all_eq_true.mp hcond (b, row) ((Table.mem_toList ..).mpr hbound.here)
  simpa [hbound.key, hactive] using List.all_eq_true.mp hall wt hwt

theorem settled_of_ready (h : Ready w.db spec.runId) : settled spec w = spec.worktrees := by
  obtain ⟨row, hrow, hready⟩ := h
  simp [settled, hrow, hready]

theorem settled_of_ahead {before todo : List WorktreeSpec} (hcall : w.call = some stage)
    (hahead : stage.ahead = some todo) (hmoving : ¬ Ready w.db spec.runId)
    (hsplit : spec.worktrees = before ++ todo) : settled spec w = before := by
  have hany : (w.db.runs.get? spec.runId).any (·.status = .ready) = false := by
    refine Bool.eq_false_iff.mpr fun hany => hmoving ?_
    obtain ⟨row, hrow, hready⟩ := (Option.any_eq_true _ _).mp hany
    exact ⟨row, hrow, of_decide_eq_true hready⟩
  simp [settled, hany, hcall, hahead, hsplit]

theorem Stage.ahead_moved {todo : List WorktreeSpec} (h : stage.ahead = some todo) :
    stage.moved = true := by
  cases stage <;> first | rfl | cases h

theorem Resumed.tick {micros : Nat} (h : Resumed spec w)
    (hcond : resumes spec w (.tick micros) = true) :
    Resumed spec { w with clock := w.clock + micros, returned := none } := by
  refine ⟨h.keys, fun hready x hx => ?_, h.moving, fun stage hcall => ?_, fun _ hr => (by cases hr)⟩
  · have hall : Saga.settled spec w = spec.worktrees := settled_of_ready hready
    exact held_tick hcond (by rw [hall]; exact hx) (h.settled hready x hx)
  · have hcall : w.call = some stage := hcall
    refine (h.progress stage hcall).mono rfl rfl fun todo hahead hdone => ?_
    obtain ⟨before, hsplit, hheld⟩ := hdone
    have hmoving := h.moving stage hcall (Stage.ahead_moved hahead)
    refine ⟨before, hsplit, fun x hx => held_tick hcond ?_ (hheld x hx)⟩
    rw [settled_of_ahead hcall hahead hmoving hsplit]
    exact hx

theorem Resumed.transition {reason : String} (h : Resumed spec w) (hne : id ≠ spec.runId)
    (hok : Run.transition w.db id toStatus reason w.clock = .ok db') :
    Resumed spec { w with db := db', returned := none } := by
  have hheld : ∀ x, Held w.db w.clock spec.runId x → Held db' w.clock spec.runId x :=
    fun x hx => hx.transition hok
  obtain ⟨row, -, -, rfl⟩ := Run.transition_ok hok
  have hready : ∀ {db : Db}, db.runs = w.db.runs.set id (row.enter toStatus w.clock) →
      Ready db spec.runId → Ready w.db spec.runId := by
    rintro db hruns ⟨row', hrow', hstatus⟩
    rw [hruns, Table.get?_set, if_neg hne.symm] at hrow'
    exact ⟨row', hrow', hstatus⟩
  refine ⟨h.keys, fun hr x hx => hheld x (h.settled (hready rfl hr) x hx),
    fun stage hcall hmoved hr => h.moving stage hcall hmoved (hready rfl hr),
    fun stage hcall => ?_, fun _ hr => (by cases hr)⟩
  exact (h.progress stage hcall).mono rfl rfl fun todo _ hdone => hdone.mono fun x _ => hheld x

theorem Stage.onFailure_cases (stage : Stage) :
    (∃ error, stage.onFailure = .done (.error error)) ∨
      (∃ error, stage.onFailure = .go (.revoke error)) ∧ stage.moved = true ∧ stage ≠ .finish := by
  cases stage <;> first
    | exact .inl ⟨_, rfl⟩
    | exact .inr ⟨⟨_, rfl⟩, rfl, fun h => by cases h⟩

theorem resumed_onFailure {moved : Bool} (hkeys : KeysUnique db)
    (hsettled : Settled spec db w.clock)
    (hmoving : stage.moved = true → stage ≠ .finish → ¬ Ready db spec.runId) :
    Resumed spec (w.goOn db moved stage.onFailure) := by
  rcases stage.onFailure_cases with ⟨error, hdone⟩ | ⟨⟨error, hgo⟩, hmoved, hne⟩
  · rw [hdone]
    refine ⟨hkeys, hsettled, fun _ hs => (by cases hs), fun _ hs => (by cases hs),
      fun r hr hok => ?_⟩
    cases hr
    cases hok
  · rw [hgo]
    refine ⟨hkeys, hsettled, fun s _ _ => hmoving hmoved hne, fun s hs => ?_,
      fun _ hr => (by cases hr)⟩
    cases hs
    trivial

theorem Resumed.step {w' : World} {a : Action} (h : Resumed spec w) (hone : OneAccess spec)
    (hcond : resumes spec w a = true) (hstep : step spec w a = some w') : Resumed spec w' := by
  cases a with
  | tick micros => cases hstep; exact h.tick hcond
  | transition id toStatus reason =>
    cases hstep
    show Resumed spec { w with
      db := committed w.db (Run.transition w.db id toStatus reason w.clock), returned := none }
    cases hok : Run.transition w.db id toStatus reason w.clock with
    | error e => exact ⟨h.keys, h.settled, h.moving, h.progress, fun _ hr => (by cases hr)⟩
    | ok db' => exact h.transition (of_decide_eq_true hcond) hok
  | provision =>
    simp only [Saga.step] at hstep
    split at hstep
    · cases hstep
      refine ⟨h.keys, h.settled, fun s hs hm => ?_, fun s hs => ?_, fun _ hr => (by cases hr)⟩
      · cases hs; cases hm
      · cases hs; trivial
    · cases hstep
  | exec id =>
    obtain ⟨stage, hcall, rfl⟩ := step_exec hstep
    have hmoving := h.moving stage hcall
    have hprogress := h.progress stage hcall
    have hsettled := Stage.exec_settled h.settled hmoving hprogress id
    have hreaches := Stage.exec_reaches hprogress hone
      (fun wt todo hcreate => by subst hcreate; simpa only [resumes, hcall] using hcond) id
    cases hnext : (stage.exec spec w.db w.clock id).2 with
    | go next =>
      rw [hnext] at hreaches
      refine ⟨h.keys.exec stage id, hsettled, fun _ _ _ => Stage.exec_moving hmoving hnext,
        fun s hs => ?_, fun _ hr => (by cases hr)⟩
      cases hs
      exact hreaches
    | done result =>
      rw [hnext] at hreaches
      refine ⟨h.keys.exec stage id, hsettled, fun _ hs => (by cases hs), fun _ hs => (by cases hs),
        fun r hr hok => ?_⟩
      cases hr
      cases hok
      exact hreaches
  | failure =>
    obtain ⟨stage, hcall, rfl⟩ := step_failure hstep
    exact resumed_onFailure h.keys h.settled fun hmoved _ => h.moving stage hcall hmoved
  | lost id =>
    obtain ⟨stage, hcall, rfl⟩ := step_lost hstep
    have hmoving := h.moving stage hcall
    refine resumed_onFailure (h.keys.exec stage id)
      (Stage.exec_settled h.settled hmoving (h.progress stage hcall) id) fun hmoved hne hready => ?_
    exact (Stage.exec_ready hready).elim (hmoving hmoved) hne
  | crash =>
    cases hstep
    exact ⟨h.keys, h.settled, fun _ hs => (by cases hs), fun _ hs => (by cases hs),
      fun _ hr => (by cases hr)⟩

/-- A call that returns `Ok` leaves the Run ready and each of its worktrees provisioned, after any
number of calls that failed or crashed, in every run where no lease of a settled worktree runs out
and no call takes a binding of its Run that was walked back. -/
theorem provisioned_of_ok {actions : List Action} {w : World} (hkeys : KeysUnique db)
    (hnew : ¬ Ready db spec.runId) (hone : OneAccess spec)
    (hrun : run (step spec) (.init db) actions = some w)
    (hmeets : Meets (step spec) (fun w a => resumes spec w a = true) (.init db) actions) :
    ∀ r, w.returned = some r → r.result = .ok () → Ready w.db spec.runId ∧
      ∀ wt ∈ spec.worktrees, Provisioned w.db w.clock spec.runId wt := by
  have hinit : Resumed spec (.init db) :=
    ⟨hkeys, fun hready => absurd hready hnew, fun _ hs => (by cases hs), fun _ hs => (by cases hs),
      fun _ hr => (by cases hr)⟩
  have hresumed : Resumed spec w :=
    run_invariant_of_meets (Resumed spec) (fun _ _ _ hw hc hstep => hw.step hone hc hstep) hinit
      hmeets hrun
  intro r hr hok
  have hready := hresumed.returned r hr hok
  exact ⟨hready, fun wt hwt => (hresumed.settled hready wt hwt).provisioned hresumed.keys⟩

/-! ## A Run that was just created -/

theorem drafted_keysUnique : KeysUnique drafted := by
  intro b b' row row' hrow
  cases hrow

theorem drafted_not_ready : ¬ Ready drafted oneWorktree.runId := by
  rintro ⟨row, hrow, hready⟩
  cases hrow
  cases hready

theorem oneWorktree_oneAccess : OneAccess oneWorktree := by
  intro x hx y hy _
  rw [List.mem_singleton.mp hx, List.mem_singleton.mp hy]

/-- The first call crashes when it has created the binding, and the second one takes it. -/
theorem provisioned_of_ok_resumed : ∃ w : World,
    run (step oneWorktree) (.init drafted)
        ([Action.provision] ++ execs 5 3 ++ [Action.crash, .provision] ++ execs 6 7) = some w ∧
      w.returned.any (·.result.toOption.isSome) = true ∧
      ∀ r, w.returned = some r → r.result = .ok () → Ready w.db 1 ∧
        ∀ wt ∈ oneWorktree.worktrees, Provisioned w.db w.clock 1 wt := by
  have hdemo : ((run (step oneWorktree) (.init drafted)
      ([Action.provision] ++ execs 5 3 ++ [Action.crash, .provision] ++ execs 6 7)).any fun w =>
        w.returned.any (·.result.toOption.isSome)) = true := by decide +kernel
  have hmeets : Meets (step oneWorktree) (fun w a => resumes oneWorktree w a = true)
      (.init drafted) ([Action.provision] ++ execs 5 3 ++
        [Action.crash, .provision] ++ execs 6 7) := by
    decide +kernel
  obtain ⟨w, hrun, h⟩ := (Option.any_eq_true _ _).mp hdemo
  exact ⟨w, hrun, h,
    provisioned_of_ok drafted_keysUnique drafted_not_ready oneWorktree_oneAccess hrun hmeets⟩

/-- The first call crashes in `compensate`, when it has quarantined the binding. The second one takes
the binding as it is and returns `Ok`. -/
theorem quarantined_binding_resumed :
    ¬ ∀ (spec : ProvisionSpec) (db : Db) (actions : List Action) (w : World),
      KeysUnique db → ¬ Ready db spec.runId → OneAccess spec →
        run (step spec) (.init db) actions = some w →
          ∀ r, w.returned = some r → r.result = .ok () → Ready w.db spec.runId →
            ∀ wt ∈ spec.worktrees, Provisioned w.db w.clock spec.runId wt := by
  have hdemo : ((run (step oneWorktree) (.init drafted)
      ([Action.provision] ++ execs 5 4 ++ [Action.failure] ++ execs 5 3 ++
        [Action.crash, .provision] ++ execs 6 7)).any fun w =>
        w.returned.any (·.result.toOption.isSome) &&
          (w.db.runs.get? 1).any (·.status = .ready) &&
          w.db.worktreeBindings.toList.all (·.2.lifecycle = .quarantined)) = true := by
    decide +kernel
  obtain ⟨w, hrun, h⟩ := (Option.any_eq_true _ _).mp hdemo
  simp only [Bool.and_eq_true, Option.any_eq_true, List.all_eq_true, decide_eq_true_eq] at h
  obtain ⟨⟨⟨r, hr, hok⟩, hready⟩, hquarantined⟩ := h
  have hresult : r.result = .ok () := eq_ok_of_toOption (Option.some_get hok).symm
  intro hall
  obtain ⟨b, row, hbound, -⟩ := hall oneWorktree drafted _ w drafted_keysUnique drafted_not_ready
    oneWorktree_oneAccess hrun r hr hresult hready _ (List.mem_singleton.mpr rfl)
  have hlifecycle := hquarantined (b, row) ((Table.mem_toList ..).mpr hbound.here)
  rw [hbound.ready] at hlifecycle
  cases hlifecycle

end Vingilot.Coordinator.Saga
