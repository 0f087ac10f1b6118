import Vingilot.Lib.Ancestry
import Vingilot.Coordinator.Calls

/-!
# The depth of a Run (`coordinator/src/run.rs`)

`run::depth` walks up the parents of a Run. Its loop has no bound of its own. It ends since a parent
is there before its child, and a Run keeps its parent.
-/

namespace Vingilot.Coordinator

open Machine Ancestry

/-- `SELECT parent_run_id FROM runs WHERE id = $1`. -/
def Db.parentOf (db : Db) (id : Uuid) : Option (Option Uuid) :=
  (db.runs.get? id).map Run.parentRunId

/-- The loop of `run::depth`. `reads i` is the database that the query number `i` sees. The table is
too small for the `i64` to overflow. -/
def depthLoop (reads : Nat → Db) : Nat → Nat → Uuid → Int → Option (Except RunError Int)
  | 0, _, _, _ => none
  | fuel + 1, i, current, depth =>
    match (reads i).parentOf current with
    | none => some (.error (.notFound current))
    | some none => some (.ok depth)
    | some (some parentId) => depthLoop reads fuel (i + 1) parentId (depth + 1)

/-- `run::depth`. -/
def depth (reads : Nat → Db) (fuel : Nat) (runId : Uuid) : Option (Except RunError Int) :=
  depthLoop reads fuel 0 runId 0

/-- `Uuid::new_v4` makes an id that the caller cannot have named as the parent. -/
def Fresh : Db → Call → Prop
  | _, .create id new => new.parentRunId ≠ some id
  | _, _ => True

instance (db : Db) : (call : Call) → Decidable (Fresh db call)
  | .create id new => inferInstanceAs (Decidable (new.parentRunId ≠ some id))
  | .insertWorkspace _ _ => isTrue trivial
  | .transition _ _ _ _ => isTrue trivial
  | .createBinding _ _ _ => isTrue trivial
  | .grant _ _ _ => isTrue trivial
  | .acquireLease _ _ _ => isTrue trivial
  | .renewLease _ _ _ _ => isTrue trivial
  | .setLifecycle _ _ => isTrue trivial
  | .quarantineReady _ => isTrue trivial
  | .revokeGrants _ => isTrue trivial

/-! ## What a call does to the parents -/

theorem Run.enter_parentRunId (row : Run) (toStatus : RunStatus) (now : Int) :
    (row.enter toStatus now).parentRunId = row.parentRunId := by
  unfold Run.enter
  split_ifs <;> rfl

variable {db : Db} {id : Uuid}

theorem parentOf_eq {v : Option Uuid} :
    db.parentOf id = some v ↔ ∃ row, db.runs.get? id = some row ∧ row.parentRunId = v := by
  unfold Db.parentOf
  rw [Option.map_eq_some_iff]

variable {db' : Db}

theorem RunChange.extends (h : RunChange db db') : Extends db.parentOf db'.parentOf := by
  intro id v hv
  obtain ⟨row, hrow, rfl⟩ := parentOf_eq.mp hv
  rw [parentOf_eq]
  cases h with
  | same hruns hlog => exact ⟨row, by rw [hruns]; exact hrow, rfl⟩
  | created id' row' hnew hstatus hwall hruns hlog =>
    have hne : id ≠ id' := by
      rintro rfl
      rw [hnew] at hrow
      cases hrow
    exact ⟨row, by rw [hruns, Table.get?_set, if_neg hne]; exact hrow, rfl⟩
  | moved id' row' toStatus reason now hrow' hlegal hruns hlog =>
    rw [hruns, Table.get?_set]
    by_cases hsame : id = id'
    · subst hsame
      obtain rfl : row = row' := Option.some.inj (hrow.symm.trans hrow')
      exact ⟨row.enter toStatus now, if_pos rfl, row.enter_parentRunId toStatus now⟩
    · exact ⟨row, by rw [if_neg hsame]; exact hrow, rfl⟩

theorem extends_of_run {calls : List Call} (h : run step db calls = some db') :
    Extends db.parentOf db'.parentOf := by
  refine run_related (fun a b => Extends a.parentOf b.parentOf) ?_ ?_ ?_ h
  · exact fun s => .refl _
  · exact fun _ _ _ hst htu => hst.trans htu
  · intro s call s' hstep
    cases hstep
    exact (call.change s).runs.extends

variable {new : NewRun}

theorem Run.create_extends (h : Run.create db id new = .ok db') :
    Extends db.parentOf db'.parentOf := by
  have hrun : run step db [.create id new] = some db' := by
    simp [run, step, Call.apply, h, committed]
  exact extends_of_run hrun

theorem Run.create_parentOf (h : Run.create db id new = .ok db') : db.runs.get? id = none ∧
      (∀ x, db'.parentOf x = if x = id then some new.parentRunId else db.parentOf x) ∧
      ∀ p, new.parentRunId = some p → p ≠ id → (db.runs.get? p).isSome := by
  unfold Run.create at h
  split_ifs at h with hfree
  cases h
  simp only [Bool.or_eq_true, not_or] at hfree
  refine ⟨Option.not_isSome_iff_eq_none.mp hfree.1.1, ?_, ?_⟩
  · intro x
    simp only [Db.parentOf, Table.get?_set]
    split_ifs <;> rfl
  · intro p hp hne
    have hparent := hfree.2
    rw [hp] at hparent
    simpa [hne, Option.isSome_iff_ne_none] using hparent

/-! ## Every Run has a way up to a root -/

def Rooted (db : Db) : Prop := ∀ id v, db.parentOf id = some v → ∃ l, Chain db.parentOf id l

theorem rooted_create (hs : Rooted db) (hfresh : new.parentRunId ≠ some id)
    (h : Run.create db id new = .ok db') : Rooted db' := by
  obtain ⟨hnew, hparentOf, hthere⟩ := Run.create_parentOf h
  have hextends := Run.create_extends h
  intro x v hv
  rw [hparentOf] at hv
  split_ifs at hv with hx
  · subst hx
    cases hv
    have hself : db'.parentOf x = some new.parentRunId := by rw [hparentOf, if_pos rfl]
    cases hparent : new.parentRunId with
    | none =>
      rw [hparent] at hself
      exact ⟨[], .root hself⟩
    | some p =>
      rw [hparent] at hself hfresh
      have hne : p ≠ x := fun heq => hfresh (congrArg some heq)
      obtain ⟨row, hrow⟩ := Option.isSome_iff_exists.mp (hthere p hparent hne)
      obtain ⟨l, hchain⟩ := hs p _ (parentOf_eq.mpr ⟨row, hrow, rfl⟩)
      exact ⟨p :: l, .hop hself (hchain.mono hextends)⟩
  · obtain ⟨l, hchain⟩ := hs x v hv
    exact ⟨l, hchain.mono hextends⟩

theorem committed_runs {ε : Type} {r : Except ε Db} (h : ∀ db', r = .ok db' → db'.runs = db.runs) :
    (committed db r).runs = db.runs := by
  cases r with
  | error e => rfl
  | ok db' => exact h db' rfl

theorem answered_runs {ε β : Type} {r : Except ε (Db × β)}
    (h : ∀ db' b, r = .ok (db', b) → db'.runs = db.runs) :
    (committed db (r.map Prod.fst)).runs = db.runs := by
  cases r with
  | error e => rfl
  | ok x => exact h x.1 x.2 rfl

theorem parentOf_apply {call : Call} (hcall : ∀ id new, call ≠ .create id new) {v : Option Uuid}
    (h : (call.apply db).parentOf id = some v) : db.parentOf id = some v := by
  have hsame : ∀ {db' : Db}, db'.runs = db.runs → db'.parentOf id = some v →
      db.parentOf id = some v := by
    intro db' hruns hv
    rwa [Db.parentOf, hruns] at hv
  cases call with
  | create id' new => exact absurd rfl (hcall id' new)
  | transition runId toStatus reason now =>
    cases hresult : Run.transition db runId toStatus reason now with
    | error e => simpa [Call.apply, hresult, committed] using h
    | ok db' =>
      obtain ⟨row, hrow, -, rfl⟩ := Run.transition_ok hresult
      simp only [Call.apply, hresult, committed, Db.parentOf, Table.get?_set] at h
      split_ifs at h with hid
      · subst hid
        rw [Option.map_some, Run.enter_parentRunId] at h
        exact parentOf_eq.mpr ⟨row, hrow, Option.some.inj h⟩
      · exact h
  | insertWorkspace id' row =>
    refine hsame ?_ h
    show (insertWorkspace db id' row).runs = db.runs
    unfold insertWorkspace
    split_ifs <;> rfl
  | createBinding id' runId new =>
    refine hsame (answered_runs fun db' b hok => ?_) h
    rcases createBinding_ok hok with ⟨-, rfl⟩ | ⟨-, -, -, rfl⟩ <;> rfl
  | grant runId bindingId access =>
    refine hsame (committed_runs fun db' hok => ?_) h
    obtain rfl := grant_ok hok
    rfl
  | acquireLease bindingId ttlSecs now =>
    refine hsame (answered_runs fun db' lease hok => ?_) h
    obtain ⟨row, -, -, rfl⟩ := acquireLease_ok hok
    rfl
  | renewLease bindingId epoch ttlSecs now =>
    refine hsame (answered_runs fun db' lease hok => ?_) h
    obtain ⟨row, -, -, rfl⟩ := renewLease_ok hok
    rfl
  | setLifecycle bindingId lifecycle =>
    refine hsame ?_ h
    show (setLifecycle db bindingId lifecycle).runs = db.runs
    rcases setLifecycle_cases db bindingId lifecycle with ⟨heq, -⟩ | ⟨row, -, heq⟩ <;> rw [heq]
  | quarantineReady bindingId =>
    refine hsame ?_ h
    show (quarantineReady db bindingId).runs = db.runs
    rcases quarantineReady_cases db bindingId with heq | ⟨row, -, -, heq⟩ <;> rw [heq]
  | revokeGrants runId => exact h

theorem rooted_apply {call : Call} (hs : Rooted db) (hfresh : Fresh db call) :
    Rooted (call.apply db) := by
  by_cases hcall : ∃ id new, call = .create id new
  · obtain ⟨id, new, rfl⟩ := hcall
    show Rooted (committed db (Run.create db id new))
    cases hresult : Run.create db id new with
    | error e => exact hs
    | ok db' => exact rooted_create hs hfresh hresult
  · have hextends := (call.change db).runs.extends
    intro id v hv
    have hnot : ∀ id new, call ≠ .create id new := fun id new heq => hcall ⟨id, new, heq⟩
    obtain ⟨l, hchain⟩ := hs id v (parentOf_apply hnot hv)
    exact ⟨l, hchain.mono hextends⟩

theorem rooted_empty : Rooted Db.empty := by
  intro id v hv
  cases hv

theorem rooted_of_run {calls : List Call} (hrun : run step Db.empty calls = some db)
    (hfresh : Meets step Fresh Db.empty calls) : Rooted db := by
  refine run_invariant_of_meets Rooted ?_ rooted_empty hfresh hrun
  intro s call s' hs hcond hstep
  cases hstep
  exact rooted_apply hs hcond

/-! ## The walk -/

theorem depthLoop_of_chain (reads : Nat → Db) (hreads : ∀ i, Extends db.parentOf (reads i).parentOf)
    {current : Uuid} {l : List Uuid} (hchain : Chain db.parentOf current l) (fuel i : Nat)
    (start : Int) (hfuel : l.length < fuel) :
    depthLoop reads fuel i current start = some (.ok (start + l.length)) := by
  induction hchain generalizing fuel i start with
  | root hroot =>
    obtain ⟨fuel, rfl⟩ := Nat.exists_eq_succ_of_ne_zero (Nat.ne_of_gt hfuel)
    simp only [depthLoop, hreads i _ _ hroot]
    simp
  | @hop current parentId l hparent hrest ih =>
    obtain ⟨fuel, rfl⟩ := Nat.exists_eq_succ_of_ne_zero (Nat.ne_of_gt (Nat.zero_lt_of_lt hfuel))
    simp only [depthLoop, hreads i _ _ hparent]
    rw [List.length_cons] at hfuel
    rw [ih fuel (i + 1) (start + 1) (by omega), List.length_cons]
    congr 2
    push_cast
    omega

theorem create_below {parentId : Uuid} {l : List Uuid} (hid : db.runs.get? id = none)
    (hworkspace : (db.workspaces.get? new.workspaceId).isSome)
    (hnew : new.parentRunId = some parentId) (hchain : Chain db.parentOf parentId l) :
    ∃ db', Run.create db id new = .ok db' ∧ Chain db'.parentOf id (parentId :: l) := by
  have hthere : (db.runs.get? parentId).isSome := by
    obtain ⟨v, hv⟩ : ∃ v, db.parentOf parentId = some v := by
      cases hchain with
      | root hroot => exact ⟨_, hroot⟩
      | hop hparent _ => exact ⟨_, hparent⟩
    obtain ⟨row, hrow, -⟩ := parentOf_eq.mp hv
    rw [hrow]
    rfl
  have hne : parentId ≠ id := by
    rintro rfl
    rw [hid] at hthere
    cases hthere
  obtain ⟨db', hresult⟩ : ∃ db', Run.create db id new = .ok db' := by
    unfold Run.create
    rw [if_neg]
    · exact ⟨_, rfl⟩
    · simp [hid, hnew, Option.isSome_iff_ne_none.mp hworkspace, Option.isSome_iff_ne_none.mp hthere]
  obtain ⟨-, hparentOf, -⟩ := Run.create_parentOf hresult
  refine ⟨db', hresult, .hop ?_ (hchain.mono (Run.create_extends hresult))⟩
  rw [hparentOf, if_pos rfl, hnew]

def Db.ancestors (db : Db) (runId : Uuid) : Set Uuid := {a | IsAncestor db.parentOf a runId}

/-- In every state that any calls lead to, the way up from a Run ends, and `depth` counts its proper
ancestors, whatever else is committed meanwhile. `create` asks for no depth, so the Run can have a
child one deeper. -/
theorem depth_counts_ancestors {calls : List Call} {reads : Nat → Db}
    (hrun : run step Db.empty calls = some (reads 0)) (hfresh : Meets step Fresh Db.empty calls)
    (hreads : ∀ i, ∃ more, run step (reads i) more = some (reads (i + 1))) :
    WellFounded (IsParent (reads 0).parentOf) ∧
      ∀ runId, ((reads 0).runs.get? runId).isSome →
        ((reads 0).ancestors runId).Finite ∧
        (∀ fuel, ((reads 0).ancestors runId).ncard < fuel →
          depth reads fuel runId = some (.ok ((reads 0).ancestors runId).ncard)) ∧
        ∀ id new, (reads 0).runs.get? id = none →
          ((reads 0).workspaces.get? new.workspaceId).isSome → new.parentRunId = some runId →
          ∃ db', Run.create (reads 0) id new = .ok db' ∧
            (db'.ancestors id).ncard = ((reads 0).ancestors runId).ncard + 1 := by
  have hrooted := rooted_of_run hrun hfresh
  have hextends : ∀ i, Extends (reads 0).parentOf (reads i).parentOf := by
    intro i
    induction i with
    | zero => exact .refl _
    | succ i ih =>
      obtain ⟨more, hmore⟩ := hreads i
      exact ih.trans (extends_of_run hmore)
  refine ⟨wellFounded_of_chains hrooted, fun runId hthere => ?_⟩
  obtain ⟨row, hrow⟩ := Option.isSome_iff_exists.mp hthere
  obtain ⟨l, hchain⟩ := hrooted runId _ (parentOf_eq.mpr ⟨row, hrow, rfl⟩)
  have hcount : ((reads 0).ancestors runId).ncard = l.length := hchain.ncard
  refine ⟨hchain.finite, ?_, ?_⟩
  · intro fuel hfuel
    rw [hcount] at hfuel ⊢
    have hwalk := depthLoop_of_chain _ hextends hchain fuel 0 0 hfuel
    rwa [Int.zero_add] at hwalk
  · intro id new hid hworkspace hnew
    obtain ⟨db', hresult, hchain'⟩ := create_below hid hworkspace hnew hchain
    refine ⟨db', hresult, ?_⟩
    rw [hcount]
    exact hchain'.ncard

/-! ## Runs below runs -/

def subRun (parentRunId : Option Uuid) : NewRun := ⟨7, parentRunId, "go on", .delegated, none⟩

/-- The Run `n` below the Run `n - 1`, and so on. -/
def nested : Nat → List Call
  | 0 => [.insertWorkspace 7 ⟨0, .obj [], ""⟩, .create (BitVec.ofNat 128 0) (subRun none)]
  | n + 1 => nested n ++ [.create (BitVec.ofNat 128 (n + 1)) (subRun (some (BitVec.ofNat 128 n)))]

theorem parentOf_eq_none : db.parentOf id = none ↔ db.runs.get? id = none := by
  unfold Db.parentOf
  exact Option.map_eq_none_iff

theorem ofNat_ne {i j : Nat} (hij : i ≠ j) (hi : i < 2 ^ 128) (hj : j < 2 ^ 128) :
    BitVec.ofNat 128 i ≠ BitVec.ofNat 128 j := by
  intro h
  have hnat := congrArg BitVec.toNat h
  rw [BitVec.toNat_ofNat, BitVec.toNat_ofNat, Nat.mod_eq_of_lt hi, Nat.mod_eq_of_lt hj] at hnat
  exact hij hnat

theorem Run.create_workspaces (h : Run.create db id new = .ok db') :
    db'.workspaces = db.workspaces := by
  obtain ⟨-, row, -, -, rfl⟩ := Run.create_ok h
  rfl

theorem nested_runs (n : Nat) (hn : n < 2 ^ 128) :
    ∃ db, run step Db.empty (nested n) = some db ∧ Meets step Fresh Db.empty (nested n) ∧
      (db.workspaces.get? 7).isSome ∧
      (∀ k, n < k → k < 2 ^ 128 → db.runs.get? (BitVec.ofNat 128 k) = none) ∧
      ∃ l, Chain db.parentOf (BitVec.ofNat 128 n) l ∧ l.length = n := by
  induction n with
  | zero =>
    let db₀ := insertWorkspace Db.empty 7 ⟨0, .obj [], ""⟩
    obtain ⟨db, hresult⟩ : ∃ db, Run.create db₀ (BitVec.ofNat 128 0) (subRun none) = .ok db := ⟨_, rfl⟩
    obtain ⟨-, hparentOf, -⟩ := Run.create_parentOf hresult
    refine ⟨db, ?_, ?_, ?_, ?_, [], .root ?_, rfl⟩
    · show some (committed db₀ (Run.create db₀ (BitVec.ofNat 128 0) (subRun none))) = some db
      rw [hresult]
      rfl
    · exact ⟨trivial, fun t _ => ⟨by simp [Fresh, subRun], fun _ _ => trivial⟩⟩
    · rw [Run.create_workspaces hresult]
      rfl
    · intro k hk hlt
      rw [← parentOf_eq_none, hparentOf, if_neg (ofNat_ne (Nat.ne_of_gt hk) hlt (by decide))]
      rfl
    · rw [hparentOf, if_pos rfl]
      rfl
  | succ n ih =>
    obtain ⟨db, hrun, hfresh, hworkspace, hfree, l, hchain, hlength⟩ := ih (by omega)
    have hid := hfree (n + 1) (Nat.lt_succ_self n) hn
    obtain ⟨db', hresult, hchain'⟩ := create_below hid
      hworkspace (show (subRun (some (BitVec.ofNat 128 n))).parentRunId = some _ from rfl) hchain
    obtain ⟨-, hparentOf, -⟩ := Run.create_parentOf hresult
    refine ⟨db', ?_, ?_, ?_, ?_, _, hchain', by rw [List.length_cons, hlength]⟩
    · refine run_append_some.mpr ⟨db, hrun, ?_⟩
      simp [run, step, Call.apply, hresult, committed]
    · refine meets_append.mpr ⟨hfresh, fun t _ => ⟨?_, fun _ _ => trivial⟩⟩
      intro heq
      exact ofNat_ne (Nat.ne_of_lt (Nat.lt_succ_self n)) (by omega) hn (Option.some.inj heq)
    · rw [Run.create_workspaces hresult]
      exact hworkspace
    · intro k hk hlt
      rw [← parentOf_eq_none, hparentOf, if_neg (ofNat_ne (Nat.ne_of_gt hk) hlt hn)]
      exact parentOf_eq_none.mpr (hfree k (by omega) hlt)

theorem depth_nested (n : Nat) (hn : n < 2 ^ 128) :
    ∃ db, run step Db.empty (nested n) = some db ∧ Meets step Fresh Db.empty (nested n) ∧
      depth (fun _ => db) (n + 1) (BitVec.ofNat 128 n) = some (.ok n) := by
  obtain ⟨db, hrun, hfresh, -, -, l, hchain, hlength⟩ := nested_runs n hn
  refine ⟨db, hrun, hfresh, ?_⟩
  have hwalk := depthLoop_of_chain (fun _ => db) (fun _ => .refl _) hchain (n + 1) 0 0
    (by omega)
  rw [hlength, Int.zero_add] at hwalk
  exact hwalk

theorem depth_counts_ancestors_nested :
    ∃ db, run step Db.empty (nested 2) = some db ∧
      WellFounded (IsParent db.parentOf) ∧ (db.ancestors 2).Finite := by
  obtain ⟨db, hrun, hfresh, hworkspace, -, l, hchain, -⟩ := nested_runs 2 (by decide)
  have hthere : (db.runs.get? 2).isSome := by
    rw [Option.isSome_iff_ne_none, ne_eq, ← parentOf_eq_none]
    intro hnone
    cases hchain with
    | root hroot => exact absurd (hroot.symm.trans hnone) (by simp)
    | hop hparent => exact absurd (hparent.symm.trans hnone) (by simp)
  obtain ⟨hfounded, hall⟩ :=
    @depth_counts_ancestors _ (fun _ => db) hrun hfresh fun _ => ⟨[], rfl⟩
  exact ⟨db, hrun, hfounded, (hall 2 hthere).1⟩

/-- No limit below the largest `i64` is one that `create` enforces. -/
theorem depth_unlimited :
    ¬ ∃ limit : Int, limit < 2 ^ 63 - 1 ∧ ∀ calls db runId fuel d,
      run step Db.empty calls = some db → Meets step Fresh Db.empty calls →
        depth (fun _ => db) fuel runId = some (.ok d) → d ≤ limit := by
  rintro ⟨limit, hlimit, hall⟩
  have hn : limit.toNat + 1 < 2 ^ 128 := by omega
  obtain ⟨db, hrun, hfresh, hdepth⟩ := depth_nested (limit.toNat + 1) hn
  have hle := hall _ db _ _ _ hrun hfresh hdepth
  omega

end Vingilot.Coordinator
