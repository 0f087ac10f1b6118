import Vingilot.Deletion.Effects

/-!
# The write fence

What the shared advisory lock, held to the commit, pins of a community, and what the exclusive
lock of a fence keeps out. The generation of a community only grows, and every fence and every
abort makes it grow, so a serving lease from before a fence matches the community never again.
-/

namespace Vingilot.Deletion.WriteFence

open Transactions Machine

/-! ## How a community changes -/

def Sealed (c : Community) : Prop := c.state = .fenced ∨ c.state = .tombstone

def CalmRow (c c' : Community) : Prop :=
  c'.generation = c.generation ∧
    (c'.state = c.state ∨ (c.state = .fenced ∧ c'.state = .tombstone))

def Calm (a b : Option Community) : Prop := ∀ c, a = some c → ∃ c', b = some c' ∧ CalmRow c c'

theorem Calm.refl (a : Option Community) : Calm a a := fun c h => ⟨c, h, rfl, .inl rfl⟩

variable {x y : Community}

theorem CalmRow.trans {z : Community} (hxy : CalmRow x y) (hyz : CalmRow y z) : CalmRow x z := by
  obtain ⟨hgen, hstate⟩ := hxy
  obtain ⟨hgen', hstate'⟩ := hyz
  refine ⟨hgen'.trans hgen, ?_⟩
  rcases hstate with hstate | ⟨hfenced, htomb⟩
  · rw [hstate] at hstate'
    exact hstate'
  · rcases hstate' with hstate' | ⟨hfenced', -⟩
    · exact .inr ⟨hfenced, hstate'.trans htomb⟩
    · rw [htomb] at hfenced'
      cases hfenced'

variable {a b : Option Community}

theorem Calm.trans {c : Option Community} (hab : Calm a b) (hbc : Calm b c) : Calm a c := by
  intro x hx
  obtain ⟨y, hy, hxy⟩ := hab x hx
  obtain ⟨z, hz, hyz⟩ := hbc y hy
  exact ⟨z, hz, hxy.trans hyz⟩

theorem CalmRow.sealed_iff (h : CalmRow x y) : Sealed y ↔ Sealed x := by
  unfold Sealed
  rcases h.2 with hstate | ⟨hfenced, htomb⟩
  · rw [hstate]
  · simp [hfenced, htomb]

def rank : CommunityState → Nat
  | .active => 0
  | .quiescing => 1
  | .fenced => 2
  | .tombstone => 3

def Later (aborts : Prop) (a b : Option Community) : Prop :=
  ∀ c, a = some c → ∃ c', b = some c' ∧ c.generation ≤ c'.generation ∧
    (¬ Sealed c → Sealed c' → c.generation < c'.generation) ∧
    (¬ aborts → rank c.state ≤ rank c'.state)

theorem Later.refl (aborts : Prop) (a : Option Community) : Later aborts a a :=
  fun c h => ⟨c, h, le_refl _, fun hopen hsealed => absurd hsealed hopen, fun _ => le_refl _⟩

theorem Later.trans {aborts : Prop} {c : Option Community} (hab : Later aborts a b)
    (hbc : Later aborts b c) : Later aborts a c := by
  intro x hx
  obtain ⟨y, hy, hgen, hseal, hrank⟩ := hab x hx
  obtain ⟨z, hz, hgen', hseal', hrank'⟩ := hbc y hy
  refine ⟨z, hz, hgen.trans hgen', ?_, fun hnot => (hrank hnot).trans (hrank' hnot)⟩
  intro hopen hsealed
  by_cases hy : Sealed y
  · exact (hseal hopen hy).trans_le hgen'
  · exact hgen.trans_lt (hseal' hy hsealed)

theorem sealed_of_rank {c : Community} (h : 2 ≤ rank c.state) : Sealed c := by
  unfold rank at h
  split at h
  · omega
  · omega
  · exact .inl (by assumption)
  · exact .inr (by assumption)

theorem rank_of_sealed {c : Community} (h : Sealed c) : 2 ≤ rank c.state := by
  rcases h with h | h <;> simp [h, rank]

/-! ## What an open transaction knows -/

def Pinned (db : Db) (t : DeletionTx) (c : CommunityId) (p : Community → Prop) : Prop :=
  (.advisory c, .shared) ∈ t.held ∧ ∃ row, db.communities.get? c = some row ∧ p row

def Cleared (db : Db) (t : DeletionTx) (c : CommunityId) : Prop :=
  Pinned db t c fun row => Sealed row → t.vars.executor = some (c, row.generation)

def Serves (generation : Nat) (row : Community) : Prop :=
  ¬ Sealed row ∧ row.generation = generation

def KnownRead (db : Db) (t : DeletionTx) : Read → Prop
  | .community target next =>
    (.communityRow (target.of t.vars), .exclusive) ∈ t.held ∧
      ∃ c, db.communities.get? (target.of t.vars) = some c ∧
        t.vars.generation = if next then c.generation + 1 else c.generation
  | _ => True

def KnownCheck (db : Db) (t : DeletionTx) : Check → Prop
  | .drained target asker =>
    asker ≠ .markDrained → (.advisory (target.of t.vars), .exclusive) ∈ t.held ∧
      ∀ id row, db.leases.get? id = some row → row.communityId = target.of t.vars →
        row.leaseUntil < t.now
  | .servingLease handle => Pinned db t handle.communityId (Serves handle.fenceGeneration)
  | _ => True

def newState : CommunityUpdate → CommunityState
  | .quiesce => .quiescing
  | .fence => .fenced
  | .tombstone _ => .tombstone
  | .restore | .archive | .unarchive => .active

def seenCommunity (db : Db) (t : DeletionTx) (c : CommunityId) : Option Community :=
  (t.writes.foldl Db.apply db).communities.get? c

def Known (db : Db) (t : DeletionTx) : Sql → Prop
  | .lock target mode => (.advisory (target.of t.vars), mode) ∈ t.held
  | .read r => KnownRead db t r
  | .check c => KnownCheck db t c
  | .renewLease handle _ => Pinned db t handle.communityId (Serves handle.fenceGeneration)
  | .insertLease _ c _ _ _ =>
    ∃ handle, t.vars.lease = some handle ∧ handle.communityId = c ∧
      Pinned db t c fun row => row.state = .active ∧ row.generation = handle.fenceGeneration
  | .setExecutor target generation =>
    ∀ c token, target = .known c → generation = .ofToken token →
      t.vars.executor = token.fenceGeneration.map fun g => (c, g)
  | .community target u =>
    u.missing (target.of t.vars) ≠ none → (.communityRow (target.of t.vars), .exclusive) ∈ t.held ∧
      ∃ row, seenCommunity db t (target.of t.vars) = some row ∧ row.state = newState u
  | _ => True

def Untouched (rel : Relation) (done : List Sql) : Prop :=
  ∀ stmt ∈ done, stmt.relation ≠ some rel

def ReadNeeds (done : List Sql) : Read → Prop
  | .requestCommunity _ => ∀ stmt ∈ done, ∃ e who why, stmt = .check (.operator e who why)
  | .community _ _ =>
    (∀ target next, .read (.community target next) ∉ done) ∧ Untouched .communities done
  | _ => True

def CheckNeeds (done : List Sql) : Check → Prop
  | .drained target asker =>
    asker ≠ .markDrained → .lock target .exclusive ∈ done ∧ Untouched .leases done
  | .servingLease handle =>
    .lock (.known handle.communityId) .shared ∈ done ∧ Untouched .communities done
  | _ => True

def CommunityNeeds (done : List Sql) (target : Target) : CommunityUpdate → Prop
  | .quiesce => .lock target .exclusive ∈ done ∧ Untouched .communities done
  | .fence =>
    .lock target .exclusive ∈ done ∧ .read (.community target true) ∈ done ∧
      Untouched .communities done
  | .restore =>
    .lock target .exclusive ∈ done ∧ .read (.community target true) ∈ done ∧
      Untouched .communities done
  | .tombstone _ | .archive | .unarchive => Untouched .communities done

def Needs (done : List Sql) : Sql → Prop
  | .read r => ReadNeeds done r
  | .check c => CheckNeeds done c
  | .community target u => CommunityNeeds done target u
  | .renewLease handle _ =>
    .lock (.known handle.communityId) .shared ∈ done ∧ Untouched .communities done ∧
      Untouched .leases done
  | .insertLease _ c _ _ _ =>
    .lock (.known c) .shared ∈ done ∧ Untouched .communities done ∧ Untouched .leases done
  | .setExecutor _ _ => ∀ target generation, .setExecutor target generation ∉ done
  | .assertTarget => Untouched .communities done
  | .writeRow => Untouched .communities done
  | .deleteRows _ _ => Untouched .communities done
  | .clearProvenance table _ => table.fenced = false
  | _ => True

/-! ## The plans are in order -/

variable {rel : Relation}

theorem untouched_append {done done' : List Sql} :
    Untouched rel (done ++ done') ↔ Untouched rel done ∧ Untouched rel done' :=
  List.forall_mem_append

theorem untouched_tenantOp (op : TenantOp) : Untouched .communities op.plan := by
  cases op <;> simp [TenantOp.plan, Untouched, Sql.relation]

theorem ordered_tenantOps {ops : List TenantOp} {done : List Sql}
    (h : Untouched .communities done) : Ordered Needs done (ops.flatMap TenantOp.plan) := by
  induction ops generalizing done with
  | nil => trivial
  | cons op ops ih =>
    rw [List.flatMap_cons, ordered_append]
    refine ⟨?_, ih (untouched_append.mpr ⟨h, untouched_tenantOp op⟩)⟩
    cases op with
    | guardTransaction c => exact ⟨trivial, trivial, trivial⟩
    | guardWithServingLease handle =>
      refine ⟨trivial, ⟨by simp, ?_⟩, trivial, trivial⟩
      exact untouched_append.mpr ⟨h, by simp [Untouched, Sql.relation]⟩
    | row op =>
      refine ⟨trivial, ?_, ?_, trivial⟩
      · exact untouched_append.mpr ⟨h, by simp [Untouched, Sql.relation]⟩
      · rw [List.append_assoc]
        exact untouched_append.mpr ⟨h, by simp [Untouched, Sql.relation]⟩

variable {c : CommunityId} {tables : List TableName}

theorem ordered_clearProvenance {done : List Sql} (h : ∀ table ∈ tables, table.fenced = false) :
    Ordered Needs done
      (tables.flatMap fun table => [.read (.scanRows table c), .clearProvenance table c]) := by
  induction tables generalizing done with
  | nil => trivial
  | cons table tables ih =>
    rw [List.flatMap_cons, ordered_append]
    refine ⟨⟨trivial, h table List.mem_cons_self, trivial⟩, ih ?_⟩
    exact fun table' htable' => h table' (List.mem_cons_of_mem table htable')

theorem ordered_deleteRows {done : List Sql} (h : Untouched .communities done) : Ordered Needs done
      (tables.flatMap fun table => [.read (.scanRows table c), .deleteRows table c]) := by
  induction tables generalizing done with
  | nil => trivial
  | cons table tables ih =>
    rw [List.flatMap_cons, ordered_append]
    refine ⟨⟨trivial, ?_, trivial⟩, ih ?_⟩
    · exact untouched_append.mpr ⟨h, by simp [Untouched, Sql.relation]⟩
    · exact untouched_append.mpr ⟨h, by simp [Untouched, Sql.relation]⟩

theorem untouched_sweep {sweep : TableName → Sql} (h : ∀ table, (sweep table).relation ≠ some rel) :
    Untouched rel (tables.flatMap fun table => [.read (.scanRows table c), sweep table]) := by
  intro stmt hstmt
  simp only [List.mem_flatMap, List.mem_cons, List.not_mem_nil, or_false] at hstmt
  obtain ⟨table, -, rfl | rfl⟩ := hstmt
  · simp [Sql.relation]
  · exact h table

theorem ordered_purge (token : LeaseToken) (catalogError : Option DbError) :
    Ordered Needs [] (purgePlan token catalogError) := by
  unfold purgePlan
  rw [ordered_append, ordered_append, ordered_append, ordered_append]
  refine ⟨⟨⟨⟨?_, ordered_clearProvenance ?_⟩, ordered_deleteRows ?_⟩, ⟨?_, trivial⟩⟩,
    ⟨trivial, trivial, trivial⟩⟩
  · simp [Ordered, Needs, CheckNeeds]
  · simp [TableName.fenced]
  · simp [Untouched, Sql.relation]
  · rw [List.nil_append]
    refine untouched_append.mpr ⟨untouched_append.mpr ⟨?_, untouched_sweep ?_⟩, untouched_sweep ?_⟩
    · simp [Untouched, Sql.relation]
    · exact fun _ => by simp [Sql.relation]
    · exact fun _ => by simp [Sql.relation]

theorem plan_ordered (call : Call) : Ordered Needs [] call.plan := by
  cases call with
  | serve readCommitted ops =>
    exact ⟨trivial, ordered_tenantOps (by simp [Untouched, Sql.relation])⟩
  | claim requestId owner leaseSeconds pick catalogError =>
    cases pick with
    | none => trivial
    | some id => cases catalogError <;> exact ⟨trivial, trivial, trivial⟩
  | verifyExecutionToken token stage =>
    simp only [Call.plan]
    split <;> exact ⟨trivial, trivial⟩
  | stopExecutor token =>
    cases token with
    | none => trivial
    | some token => exact ⟨trivial, trivial⟩
  | purgePostgres token catalogError => exact ordered_purge token catalogError
  | beginQuiescing token =>
    simp [Call.plan, Ordered, Needs, ReadNeeds, CheckNeeds, CommunityNeeds, Untouched,
      Sql.relation]
  | fence token =>
    simp [Call.plan, advanceRequestTx, Ordered, Needs, ReadNeeds, CheckNeeds, CommunityNeeds,
      Untouched, Sql.relation]
  | abort requestId abortedBy reason =>
    simp [Call.plan, abortPlan, Ordered, Needs, ReadNeeds, CheckNeeds, CommunityNeeds, Untouched,
      Sql.relation]
  | markDrained token =>
    simp [Call.plan, advanceRequestTx, Ordered, Needs, CheckNeeds]
  | acquireServingWriteLease id c operation owner leaseSeconds =>
    simp [Call.plan, Ordered, Needs, CheckNeeds, Untouched, Sql.relation]
  | renewServingWriteLease handle leaseSeconds =>
    simp [Call.plan, Ordered, Needs, Untouched, Sql.relation]
  | verifyServingWriteLease handle =>
    simp [Call.plan, Ordered, Needs, CheckNeeds, Untouched, Sql.relation]
  | archiveCommunityOwnedBy c => simp [Call.plan, Ordered, Needs, CommunityNeeds, Untouched]
  | unarchiveCommunityOwnedBy c => simp [Call.plan, Ordered, Needs, CommunityNeeds, Untouched]
  | _ =>
    simp only [Call.plan, advanceRequestTx, advanceWithCheckpoint, List.cons_append,
      List.nil_append, Ordered, Needs, ReadNeeds, CheckNeeds, and_self]

/-! ## What the fence trigger checks -/

variable {now : Int} {v : Vars}

theorem assert_ok {db : Db} (h : assertCommunityWriteAllowed db now v c = .ok ()) :
    ∃ row, db.communities.get? c = some row ∧
      (Sealed row → v.executor = some (c, row.generation)) := by
  unfold assertCommunityWriteAllowed at h
  split at h
  · cases h
  · split at h
    · cases h
    · rename_i row hget
      refine ⟨row, hget, ?_⟩
      intro hsealed
      by_contra hne
      have hstate : row.state ≠ .active ∧ row.state ≠ .quiescing := by
        rcases hsealed with hstate | hstate <;> simp [hstate]
      simp [hne, hstate] at h

theorem assertAll_ok {db : Db} {cs : List CommunityId} (h : assertAll db now v cs = .ok ()) :
    ∀ c ∈ cs, assertCommunityWriteAllowed db now v c = .ok () := by
  induction cs with
  | nil => intro c hc; cases hc
  | cons d cs ih =>
    obtain ⟨_, hfirst, hrest⟩ := Program.exceptBind_ok.mp h
    intro c hc
    rcases List.mem_cons.mp hc with rfl | hc
    · exact hfirst
    · exact ih hrest c hc

def touched (old new : Option TenantRow) : List CommunityId :=
  (old.bind TenantRow.communityId).toList ++ (new.bind TenantRow.communityId).toList

theorem mem_fenceTargets {old new : Option TenantRow} (h : c ∈ touched old new) :
    c ∈ fenceTargets old new := by
  unfold touched at h
  unfold fenceTargets
  cases old with
  | none =>
    cases new with
    | none => simp at h
    | some new => simpa using h
  | some old =>
    cases new with
    | none => simpa using h
    | some new =>
      simp only [Option.bind_some] at h ⊢
      cases ho : old.communityId with
      | none => cases hn : new.communityId <;> simp_all
      | some o =>
        cases hn : new.communityId with
        | none => simp_all
        | some n =>
          rw [ho, hn] at h
          simp only [Option.toList_some, List.cons_append, List.nil_append, List.mem_cons,
            List.not_mem_nil, or_false] at h
          dsimp only
          split_ifs with heq hlt
          · subst heq
            simpa using h
          · simpa using h
          · simpa using h.symm

/-! ## The conditions of open transactions -/

def AbortsCommunity (t : DeletionTx) (c : CommunityId) : Prop :=
  (∃ id who why, t.call = .abort id who why) ∧ t.vars.community = c

def WriteOk (db : Db) (t : DeletionTx) : Write → Prop
  | .tenant key old new => key.1.fenced = true → ∀ c ∈ touched old new, Cleared db t c
  | .lease _ row => ∀ r, row = some r → Pinned db t r.communityId (Serves r.fenceGeneration)
  | _ => True

structure Own (env : Env) (db : Db) (done : List Sql) (t : DeletionTx) : Prop where
  known : ∀ stmt ∈ done, Known db t stmt
  later : ∀ c, Later (AbortsCommunity t c) (db.communities.get? c)
    (((store env).seen db t).communities.get? c)
  calm : ∀ c, (.advisory c, .exclusive) ∈ t.held ∨
    Calm (db.communities.get? c) (((store env).seen db t).communities.get? c)
  writes : ∀ w ∈ t.writes, WriteOk db t w
  pending : ∀ change, t.vars.change = some change → change.key.1.fenced = true →
    ∀ c ∈ touched change.old change.new, c ∈ t.vars.targets ∨ Cleared db t c
  executor : t.vars.executor = none ∨ ∃ target generation, .setExecutor target generation ∈ done

def Past (db : Db) (c : CommunityId) (generation : Nat) : Prop :=
  ∃ row, db.communities.get? c = some row ∧ generation ≤ row.generation ∧
    (Sealed row → generation < row.generation)

abbrev DeletionPublic := Public Call Db Vars DbError

structure Inv (p : DeletionPublic) : Prop where
  leases : ∀ id row, p.db.leases.get? id = some row → Past p.db row.communityId row.fenceGeneration
  granted : ∀ id c operation owner leaseSeconds vars handle,
    (.acquireServingWriteLease id c operation owner leaseSeconds, .ok vars) ∈ p.answers →
      vars.lease = some handle → Past p.db handle.communityId handle.fenceGeneration

variable {generation : Nat}

theorem Past.later {db db' : Db} {aborts : Prop} (h : Past db c generation)
    (hlater : Later aborts (db.communities.get? c) (db'.communities.get? c)) :
    Past db' c generation := by
  obtain ⟨row, hrow, hle, hlt⟩ := h
  obtain ⟨row', hrow', hgen, hseal, -⟩ := hlater row hrow
  refine ⟨row', hrow', hle.trans hgen, ?_⟩
  intro hsealed
  by_cases hold : Sealed row
  · exact (hlt hold).trans_le hgen
  · exact hle.trans_lt (hseal hold hsealed)

theorem past_of_serves {db : Db} {t : DeletionTx} (h : Pinned db t c (Serves generation)) :
    Past db c generation := by
  obtain ⟨-, row, hrow, hopen, hgen⟩ := h
  exact ⟨row, hrow, hgen.ge, fun hsealed => absurd hsealed hopen⟩

variable {id : Uuid} {row : ServingLease}

theorem lease_of_view {env : Env} {db : Db} {ws : List Write}
    (h : (view (store env).system db ws).leases.get? id = some row) :
    db.leases.get? id = some row ∨ .lease id (some row) ∈ ws := by
  induction ws generalizing db with
  | nil => exact .inl h
  | cons w ws ih =>
    rcases @ih (Db.apply db w) h with hold | hnew
    · cases w with
      | lease id' row' =>
        simp only [Db.apply, Table.get?_alter] at hold
        split_ifs at hold with hid
        · rw [hid, hold]
          exact .inr List.mem_cons_self
        · exact .inl hold
      | _ => exact .inl hold
    · exact .inr (List.mem_cons_of_mem w hnew)

/-! ## Commits of others -/

theorem serves_calm (h : CalmRow x y) (hx : Serves generation x) : Serves generation y :=
  ⟨fun hsealed => hx.1 (h.sealed_iff.mp hsealed), h.1.trans hx.2⟩

theorem active_calm (h : CalmRow x y) (hx : x.state = .active ∧ x.generation = generation) :
    y.state = .active ∧ y.generation = generation := by
  refine ⟨?_, h.1.trans hx.2⟩
  rcases h.2 with hstate | ⟨hfenced, -⟩
  · exact hstate.trans hx.1
  · rw [hx.1] at hfenced
    cases hfenced

variable {w : Write}

section Commit

variable {env : Env} {db : Db} {done : List Sql} {t u : DeletionTx}

theorem pinned_commit (ht : Own env db done t) (hfit : conflict t.held u.held = false)
    {p : Community → Prop} (hcalm : ∀ x y, CalmRow x y → p x → p y) (h : Pinned db u c p) :
    Pinned ((store env).seen db t) u c p := by
  obtain ⟨hheld, row, hrow, hp⟩ := h
  rcases ht.calm c with hexclusive | hseen
  · exact absurd hexclusive (not_exclusive_of_held hfit hheld)
  · obtain ⟨row', hrow', hrows⟩ := hseen row hrow
    exact ⟨hheld, row', hrow', hcalm row row' hrows hp⟩

theorem cleared_commit (ht : Own env db done t) (hfit : conflict t.held u.held = false)
    (h : Cleared db u c) : Cleared ((store env).seen db t) u c := by
  refine pinned_commit ht hfit ?_ h
  intro x y hcalm hx hsealed
  rw [hcalm.1]
  exact hx (hcalm.sealed_iff.mp hsealed)

theorem lease_commit (ht : Own env db done t) (hfit : conflict t.held u.held = false)
    (hheld : (.advisory c, .exclusive) ∈ u.held)
    (hrow : ((store env).seen db t).leases.get? id = some row) (hc : row.communityId = c) :
    db.leases.get? id = some row := by
  rcases lease_of_view hrow with hold | hnew
  · exact hold
  · obtain ⟨hshared, -⟩ := ht.writes _ hnew row rfl
    rw [hc] at hshared
    have hconflict : conflict t.held u.held = true := conflict_of_mem hshared hheld
    rw [hfit] at hconflict
    cases hconflict

theorem known_commit (ht : Own env db done t) (hlocked : (store env).Locked t)
    (hfit : conflict t.held u.held = false) {stmt : Sql} (h : Known db u stmt) :
    Known ((store env).seen db t) u stmt := by
  cases stmt with
  | read r =>
    cases r with
    | community target next =>
      obtain ⟨hheld, c, hc, hgen⟩ := h
      refine ⟨hheld, c, ?_, hgen⟩
      rw [← hc]
      exact (communityRow env (target.of u.vars)).read_spared (spared_of_held hlocked hfit hheld)
    | _ => trivial
  | check c =>
    cases c with
    | drained target asker =>
      intro hasker
      obtain ⟨hheld, hexpired⟩ := h hasker
      refine ⟨hheld, ?_⟩
      intro id row hrow hc
      exact hexpired id row (lease_commit ht hfit hheld hrow hc) hc
    | servingLease handle => exact pinned_commit ht hfit (fun _ _ => serves_calm) h
    | _ => trivial
  | renewLease handle leaseSeconds => exact pinned_commit ht hfit (fun _ _ => serves_calm) h
  | insertLease id c operation owner leaseSeconds =>
    obtain ⟨handle, hlease, hc, hpinned⟩ := h
    exact ⟨handle, hlease, hc, pinned_commit ht hfit (fun _ _ => active_calm) hpinned⟩
  | community target update =>
    intro hmissing
    obtain ⟨hheld, row, hrow, hstate⟩ := h hmissing
    refine ⟨hheld, row, ?_, hstate⟩
    rw [← hrow]
    have hsame : ((store env).seen db t).communities.get? (target.of u.vars) =
        db.communities.get? (target.of u.vars) :=
      (communityRow env (target.of u.vars)).read_spared (spared_of_held hlocked hfit hheld)
    have hview := (communityRow env (target.of u.vars)).read_view
    show (view (store env).system ((store env).seen db t) u.writes).communities.get? _ =
      (view (store env).system db u.writes).communities.get? _
    rw [hview _ u.writes, hview db u.writes, hsame]
  | _ => exact h

theorem writeOk_commit (ht : Own env db done t) (hfit : conflict t.held u.held = false)
    (h : WriteOk db u w) : WriteOk ((store env).seen db t) u w := by
  cases w with
  | tenant key old new =>
    intro hfenced c hc
    exact cleared_commit ht hfit (h hfenced c hc)
  | lease id row =>
    intro r hr
    exact pinned_commit ht hfit (fun _ _ => serves_calm) (h r hr)
  | _ => trivial

theorem own_commit {done' : List Sql} (ht : Own env db done t) (hu : Own env db done' u)
    (hlocked : (store env).Locked t) (hlocked' : (store env).Locked u)
    (hfit : conflict t.held u.held = false) : Own env ((store env).seen db t) done' u where
  known stmt hstmt := known_commit ht hlocked hfit (hu.known stmt hstmt)
  later c :=
    (communityRow env c).related_commit (Later.refl _) hlocked hlocked' hfit (hu.later c)
  calm c := by
    rcases hu.calm c with hheld | hcalm
    · exact .inl hheld
    · exact .inr ((communityRow env c).related_commit Calm.refl hlocked hlocked' hfit hcalm)
  writes w hw := writeOk_commit ht hfit (hu.writes w hw)
  pending change hchange hfenced c hc := by
    rcases hu.pending change hchange hfenced c hc with htarget | hcleared
    · exact .inl htarget
    · exact .inr (cleared_commit ht hfit hcleared)
  executor := hu.executor

end Commit

/-! ## The transaction's own statements -/

variable {t' : DeletionTx}

theorem Pinned.mono {db : Db} {t : DeletionTx} {p : Community → Prop} (h : Pinned db t c p)
    (hheld : ∀ x ∈ t.held, x ∈ t'.held) : Pinned db t' c p :=
  ⟨hheld _ h.1, h.2⟩

theorem target_of_same {v' : Vars} (h : v'.community = v.community) (target : Target) :
    target.of v' = target.of v := by
  cases target with
  | known c => rfl
  | ofRequest => exact h

theorem known_mono {db : Db} {t : DeletionTx} {stmt : Sql} (h : Known db t stmt)
    (hheld : ∀ x ∈ t.held, x ∈ t'.held) (hnow : t'.now = t.now)
    (hcommunity : t'.vars.community = t.vars.community)
    (hgeneration : t'.vars.generation = t.vars.generation ∨
      ∀ target next, stmt ≠ .read (.community target next))
    (hlease : t'.vars.lease = t.vars.lease ∨ stmt.relation ≠ some .leases)
    (hexecutor : t'.vars.executor = t.vars.executor ∨
      ∀ target generation, stmt ≠ .setExecutor target generation)
    (hseen : (∀ c, seenCommunity db t' c = seenCommunity db t c) ∨
      stmt.relation ≠ some .communities) : Known db t' stmt := by
  have htarget := target_of_same hcommunity
  cases stmt with
  | lock target mode =>
    show (Lock.advisory (target.of t'.vars), mode) ∈ t'.held
    rw [htarget]
    exact hheld _ h
  | read r =>
    cases r with
    | community target next =>
      obtain ⟨hlock, c, hc, hgen⟩ := h
      rcases hgeneration with hgeneration | hne
      · show (Lock.communityRow (target.of t'.vars), Mode.exclusive) ∈ t'.held ∧ _
        rw [htarget, hgeneration]
        exact ⟨hheld _ hlock, c, hc, hgen⟩
      · exact absurd rfl (hne target next)
    | _ => trivial
  | check c =>
    cases c with
    | drained target asker =>
      intro hasker
      obtain ⟨hlock, hexpired⟩ := h hasker
      rw [htarget, hnow]
      exact ⟨hheld _ hlock, hexpired⟩
    | servingLease handle => exact Pinned.mono h hheld
    | _ => trivial
  | renewLease handle leaseSeconds => exact Pinned.mono h hheld
  | insertLease id c operation owner leaseSeconds =>
    rcases hlease with hlease | hne
    · obtain ⟨handle, hvars, hc, hpinned⟩ := h
      exact ⟨handle, hlease.trans hvars, hc, hpinned.mono hheld⟩
    · exact absurd rfl hne
  | setExecutor target generation =>
    intro c token htarget hgeneration
    rcases hexecutor with hexecutor | hne
    · rw [hexecutor]
      exact h c token htarget hgeneration
    · exact absurd rfl (hne target generation)
  | community target u =>
    rcases hseen with hseen | hne
    · intro hmissing
      rw [htarget] at hmissing ⊢
      obtain ⟨hlock, row, hrow, hstate⟩ := h hmissing
      rw [hseen]
      exact ⟨hheld _ hlock, row, hrow, hstate⟩
    · exact absurd rfl hne
  | _ => trivial

variable {target : Target}

theorem untouched_of_communityNeeds {done : List Sql} {u : CommunityUpdate}
    (h : CommunityNeeds done target u) : Untouched .communities done := by
  cases u with
  | quiesce => exact h.2
  | fence => exact h.2.2
  | tombstone token => exact h
  | restore => exact h.2.2
  | archive => exact h
  | unarchive => exact h

variable {locks : List (Lock × Mode)} {handle : ServingWriteLease} {seen : Db}

section Exec

variable {env : Env} {db : Db} {done : List Sql} {t : DeletionTx} {stmt : Sql} {v' : Vars}
  {ws : List Write} {rest : List (Statement Db Lock Vars Write DbError)}

theorem known_old (heffect : Effect env t.now t.vars ((store env).seen db t) stmt v' ws)
    (hneeds : Needs done stmt) {k : Sql} (hk : k ∈ done) (h : Known db t k) :
    Known db (t.after rest locks v' ws) k := by
  have hheld : ∀ x ∈ t.held, x ∈ (t.after rest locks v' ws).held :=
    fun x hx => List.mem_append_left _ hx
  have hseen : stmt.relation ≠ some .communities →
      ∀ c, seenCommunity db (t.after rest locks v' ws) c = seenCommunity db t c := by
    intro hrel c
    show ((store env).seen db (t.after rest locks v' ws)).communities.get? c = _
    rw [Planned.seen_after, heffect.read_view communities_apply hrel]
    rfl
  have hkeep : stmt.relation ≠ some .communities → v'.community = t.vars.community →
      v'.generation = t.vars.generation → v'.lease = t.vars.lease →
      v'.executor = t.vars.executor → Known db (t.after rest locks v' ws) k :=
    fun hrel hcommunity hgeneration hlease hexecutor =>
      known_mono h hheld rfl hcommunity (.inl hgeneration) (.inl hlease) (.inl hexecutor)
        (.inl (hseen hrel))
  cases heffect with
  | read hrun =>
    cases readEffect_of_run hrun with
    | requestCommunity hget =>
      obtain ⟨e, who, why, rfl⟩ := hneeds k hk
      trivial
    | community hget =>
      refine known_mono h hheld rfl rfl (.inr ?_) (.inl rfl) (.inl rfl)
        (.inl (hseen (by simp [Sql.relation])))
      rintro target next rfl
      exact hneeds.1 target next hk
    | _ => exact hkeep (by simp [Sql.relation]) rfl rfl rfl rfl
  | setExecutor target generation =>
    refine known_mono h hheld rfl rfl (.inl rfl) (.inl rfl) (.inr ?_)
      (.inl (hseen (by simp [Sql.relation])))
    rintro target' generation' rfl
    exact hneeds target' generation' hk
  | insertLease hget hactive =>
    exact known_mono h hheld rfl rfl (.inl rfl) (.inr (hneeds.2.2 k hk)) (.inl rfl)
      (.inl (hseen (by simp [Sql.relation])))
  | renewLease hrow =>
    exact known_mono h hheld rfl rfl (.inl rfl) (.inr (hneeds.2.2 k hk)) (.inl rfl)
      (.inl (hseen (by simp [Sql.relation])))
  | community hget happlies hguard =>
    exact known_mono h hheld rfl rfl (.inl rfl) (.inl rfl) (.inl rfl)
      (.inr (untouched_of_communityNeeds hneeds k hk))
  | noCommunity hmissing =>
    exact known_mono h hheld rfl rfl (.inl rfl) (.inl rfl) (.inl rfl)
      (.inr (untouched_of_communityNeeds hneeds k hk))
  | _ => exact hkeep (by simp [Sql.relation]) rfl rfl rfl rfl

theorem seen_communities (htags : Tagged db done t) (h : Untouched .communities done) :
    ((store env).seen db t).communities = db.communities :=
  seen_of_untouched communities_apply htags h

theorem expired_of_drained (h : (activeServingLeases db now c).isEmpty = true)
    (hrow : db.leases.get? id = some row) (hc : row.communityId = c) : row.leaseUntil < now := by
  by_contra hlive
  have hmem : row ∈ activeServingLeases db now c := by
    unfold activeServingLeases
    rw [List.mem_filter]
    refine ⟨List.mem_map.mpr ⟨(id, row), (Table.mem_toList _ _ _).mpr hrow, rfl⟩, ?_⟩
    simp only [hc, beq_self_eq_true, Bool.true_and, decide_eq_true_eq]
    omega
  rw [List.isEmpty_iff.mp h] at hmem
  cases hmem

theorem ServingWriteLease.names_iff :
    handle.names row = true ↔ row.communityId = handle.communityId ∧ row.owner = handle.owner ∧
      row.generation = handle.generation ∧ row.fenceGeneration = handle.fenceGeneration := by
  simp [ServingWriteLease.names, and_assoc]

theorem not_sealed_of_open {c : Community} (h : c.state = .active ∨ c.state = .quiescing) :
    ¬ Sealed c := by
  unfold Sealed
  rcases h with h | h <;> simp [h]

theorem serves_of_current (h : servingLeaseCurrent seen now handle = true) :
    ∃ c, seen.communities.get? handle.communityId = some c ∧ Serves handle.fenceGeneration c := by
  unfold servingLeaseCurrent at h
  simp only [Option.any_eq_true, Bool.and_eq_true, Bool.or_eq_true, beq_iff_eq,
    ServingWriteLease.names_iff] at h
  obtain ⟨row, -, ⟨⟨hcommunity, -, -, hfence⟩, -⟩, c, hc, ⟨-, hstate⟩, hgen⟩ := h
  rw [hcommunity] at hc
  exact ⟨c, hc, not_sealed_of_open hstate, hgen.trans hfence⟩

theorem serves_of_renewable (h : leaseRow seen handle (renewable seen now) = some row) :
    row.communityId = handle.communityId ∧ row.fenceGeneration = handle.fenceGeneration ∧
      ∃ c, seen.communities.get? handle.communityId = some c ∧ Serves handle.fenceGeneration c := by
  obtain ⟨-, h⟩ := filter_eq_some h
  unfold renewable at h
  simp only [Option.any_eq_true, Bool.and_eq_true, Bool.or_eq_true, beq_iff_eq,
    ServingWriteLease.names_iff] at h
  obtain ⟨⟨hcommunity, -, -, hfence⟩, -, c, hc, ⟨hstate, -⟩, hgen⟩ := h
  rw [hcommunity] at hc
  exact ⟨hcommunity, hfence, c, hc, not_sealed_of_open hstate, hgen.trans hfence⟩

theorem get?_view_community (seen : Db) (id c : CommunityId) (row : Community) :
    (view (store env).system seen [.community id row]).communities.get? c =
      if c = id then some row else seen.communities.get? c :=
  Table.get?_set ..

theorem newState_set {u : CommunityUpdate} {c : Community} (happlies : u.applies c = true) :
    (u.set now v c).state = newState u := by
  cases u with
  | archive =>
    simp only [CommunityUpdate.applies, Bool.and_eq_true, beq_iff_eq] at happlies
    exact happlies.1
  | unarchive =>
    simp only [CommunityUpdate.applies, Bool.and_eq_true, beq_iff_eq] at happlies
    exact happlies.1
  | _ => rfl

theorem known_new (hown : Own env db done t) (htags : Tagged db done t) (hneeds : Needs done stmt)
    (heffect : Effect env t.now t.vars ((store env).seen db t) stmt v' ws) :
    Known db (t.after rest (stmt.locks t.now t.vars ((store env).seen db t)) v' ws) stmt := by
  cases heffect with
  | lock target mode => exact List.mem_append_right _ (by simp [Sql.locks])
  | check hrun =>
    rename_i c
    cases c with
    | drained target asker =>
      intro hasker
      obtain ⟨hlock, huntouched⟩ := hneeds hasker
      refine ⟨List.mem_append_left _ (hown.known _ hlock), ?_⟩
      intro id row hrow hc
      rw [← (seen_of_untouched leases_apply htags huntouched :
        ((store env).seen db t).leases = db.leases)] at hrow
      exact expired_of_drained (require_ok.mp hrun) hrow hc
    | servingLease handle =>
      refine ⟨List.mem_append_left _ (hown.known _ hneeds.1), ?_⟩
      rw [← seen_communities htags hneeds.2]
      exact serves_of_current (require_ok.mp hrun)
    | _ => trivial
  | read hrun =>
    cases readEffect_of_run hrun with
    | community hget =>
      refine ⟨List.mem_append_right _ (by simp [Sql.locks, Read.locks]; rfl), _, ?_, rfl⟩
      rw [← seen_communities htags hneeds.2]
      exact hget
    | _ => trivial
  | setExecutor target generation =>
    rintro c token rfl rfl
    rfl
  | insertLease hget hactive =>
    refine ⟨_, rfl, rfl, List.mem_append_left _ (hown.known _ hneeds.1), ?_⟩
    rw [← seen_communities htags hneeds.2.1]
    exact ⟨_, hget, hactive, rfl⟩
  | renewLease hrow =>
    refine ⟨List.mem_append_left _ (hown.known _ hneeds.1), ?_⟩
    rw [← seen_communities htags hneeds.2.1]
    exact (serves_of_renewable hrow).2.2
  | community hget happlies hguard =>
    rename_i target u c
    refine fun _ => ⟨List.mem_append_right _ (by simp [Sql.locks, hget, happlies]), ?_⟩
    refine ⟨u.set t.now t.vars c, ?_, newState_set happlies⟩
    show ((store env).seen db (t.after rest _ t.vars _)).communities.get? (target.of t.vars) = _
    rw [Planned.seen_after, get?_view_community, if_pos rfl]
  | noCommunity hmissing => exact fun hne => absurd hmissing hne
  | _ => trivial

/-! ### Communities -/

theorem restore_in_plan {call : Call} (h : .community target .restore ∈ call.plan) :
    (∃ id who why, call = .abort id who why) ∧ target = .ofRequest := by
  cases call with
  | abort id who why =>
    simp only [Call.plan, abortPlan, List.mem_cons, List.not_mem_nil, or_false, reduceCtorEq,
      false_or, Sql.community.injEq] at h
    exact ⟨⟨id, who, why, rfl⟩, h.1⟩
  | serve readCommitted ops =>
    simp only [Call.plan, List.mem_cons, reduceCtorEq, false_or, List.mem_flatMap] at h
    obtain ⟨op, -, hop⟩ := h
    cases op <;> simp [TenantOp.plan] at hop
  | claim requestId owner leaseSeconds pick catalogError =>
    cases pick <;> cases catalogError <;> simp [Call.plan, claimPlan] at h
  | verifyExecutionToken token stage =>
    simp only [Call.plan] at h
    split at h <;> simp at h
  | stopExecutor token => cases token <;> simp [Call.plan] at h
  | purgePostgres token catalogError => simp [Call.plan, purgePlan, advanceRequestTx] at h
  | _ => simp [Call.plan, advanceRequestTx, advanceWithCheckpoint] at h

theorem later_set (hown : Own env db done t) (htags : Tagged db done t) {u : CommunityUpdate}
    (hneeds : CommunityNeeds done target u) (hplan : .community target u ∈ t.call.plan)
    {c : Community} (hget : ((store env).seen db t).communities.get? (target.of t.vars) = some c)
    (happlies : u.applies c = true) :
    Later (AbortsCommunity t (target.of t.vars)) (some c) (some (u.set t.now t.vars c)) := by
  -- A fence and an abort write the generation that follows the one they have read.
  have hnext : .read (.community target true) ∈ done → Untouched .communities done →
      t.vars.generation = c.generation + 1 := by
    intro hread huntouched
    obtain ⟨-, c', hc', hgen⟩ := hown.known _ hread
    rw [← seen_communities htags huntouched, hget] at hc'
    cases hc'
    exact hgen
  intro c₀ hc₀
  cases hc₀
  refine ⟨_, rfl, ?_⟩
  cases u with
  | quiesce =>
    simp only [CommunityUpdate.applies, Bool.and_eq_true, Bool.or_eq_true, beq_iff_eq] at happlies
    refine ⟨le_refl _, ?_, ?_⟩
    · intro _ hsealed
      simp [Sealed, CommunityUpdate.set] at hsealed
    · intro _
      rcases happlies.1 with hstate | hstate <;> simp [hstate, CommunityUpdate.set, rank]
  | fence =>
    have hgen := hnext hneeds.2.1 hneeds.2.2
    simp only [CommunityUpdate.applies, beq_iff_eq] at happlies
    simp only [CommunityUpdate.set, hgen, happlies, rank]
    exact ⟨by omega, fun _ _ => by omega, fun _ => by omega⟩
  | tombstone token =>
    simp only [CommunityUpdate.applies, Bool.and_eq_true, beq_iff_eq] at happlies
    refine ⟨le_refl _, ?_, ?_⟩
    · intro hopen
      exact absurd (.inl happlies.1) hopen
    · intro _
      simp [happlies.1, CommunityUpdate.set, rank]
  | restore =>
    have hgen := hnext hneeds.2.1 hneeds.2.2
    obtain ⟨habort, rfl⟩ := restore_in_plan hplan
    refine ⟨by simp only [CommunityUpdate.set, hgen]; omega, ?_, ?_⟩
    · intro _ hsealed
      simp [Sealed, CommunityUpdate.set] at hsealed
    · intro hnot
      exact absurd ⟨habort, rfl⟩ hnot
  | archive => exact ⟨le_refl _, fun hopen hsealed => absurd hsealed hopen, fun _ => le_refl _⟩
  | unarchive => exact ⟨le_refl _, fun hopen hsealed => absurd hsealed hopen, fun _ => le_refl _⟩

theorem calm_set (hown : Own env db done t) {u : CommunityUpdate}
    (hneeds : CommunityNeeds done target u) {c : Community} (happlies : u.applies c = true) :
    (.advisory (target.of t.vars), .exclusive) ∈ t.held ∨
      Calm (some c) (some (u.set t.now t.vars c)) := by
  cases u with
  | quiesce => exact .inl (hown.known _ hneeds.1)
  | fence => exact .inl (hown.known _ hneeds.1)
  | restore => exact .inl (hown.known _ hneeds.1)
  | tombstone token =>
    simp only [CommunityUpdate.applies, Bool.and_eq_true, beq_iff_eq] at happlies
    refine .inr ?_
    intro c₀ hc₀
    cases hc₀
    exact ⟨_, rfl, rfl, .inr ⟨happlies.1, rfl⟩⟩
  | archive =>
    refine .inr ?_
    intro c₀ hc₀
    cases hc₀
    exact ⟨_, rfl, rfl, .inl rfl⟩
  | unarchive =>
    refine .inr ?_
    intro c₀ hc₀
    cases hc₀
    exact ⟨_, rfl, rfl, .inl rfl⟩

theorem relation_community_cases (heffect : Effect env t.now t.vars ((store env).seen db t) stmt v' ws) :
    ((view (store env).system ((store env).seen db t) ws).communities =
        ((store env).seen db t).communities) ∨
      ∃ target u c, stmt = .community target u ∧ v' = t.vars ∧
        ((store env).seen db t).communities.get? (target.of t.vars) = some c ∧
        u.applies c = true ∧ ws = [.community (target.of t.vars) (u.set t.now t.vars c)] := by
  by_cases hrel : stmt.relation = some .communities
  · cases heffect with
    | community hget happlies hguard => exact .inr ⟨_, _, _, rfl, rfl, hget, happlies, rfl⟩
    | noCommunity hmissing => exact .inl rfl
    | _ => cases hrel
  · exact .inl (heffect.read_view communities_apply hrel)

theorem community_var (heffect : Effect env t.now t.vars seen stmt v' ws) :
    v'.community = t.vars.community ∨ ∃ id, stmt = .read (.requestCommunity id) := by
  cases heffect with
  | read hrun =>
    cases readEffect_of_run hrun with
    | requestCommunity hget => exact .inr ⟨_, rfl⟩
    | _ => exact .inl rfl
  | _ => exact .inl rfl

theorem executor_var (heffect : Effect env t.now t.vars seen stmt v' ws) :
    v'.executor = t.vars.executor ∨ ∃ target generation, stmt = .setExecutor target generation := by
  cases heffect with
  | read hrun => cases readEffect_of_run hrun <;> exact .inl rfl
  | setExecutor target generation => exact .inr ⟨target, generation, rfl⟩
  | _ => exact .inl rfl

theorem untouched_of_operator (h : ∀ stmt ∈ done, ∃ e who why, stmt = .check (.operator e who why)) :
    Untouched rel done := by
  intro stmt hstmt
  obtain ⟨e, who, why, rfl⟩ := h stmt hstmt
  simp [Sql.relation]

theorem later_exec (hown : Own env db done t) (htags : Tagged db done t) (hneeds : Needs done stmt)
    (hplan : stmt ∈ t.call.plan)
    (heffect : Effect env t.now t.vars ((store env).seen db t) stmt v' ws) (c : CommunityId) :
    Later ((∃ id who why, t.call = .abort id who why) ∧ v'.community = c) (db.communities.get? c)
      ((view (store env).system ((store env).seen db t) ws).communities.get? c) := by
  rcases relation_community_cases heffect with hsame | ⟨target, u, row, rfl, rfl, hget, happlies, rfl⟩
  · rw [hsame]
    rcases community_var heffect with hvar | ⟨id, rfl⟩
    · rw [hvar]
      exact hown.later c
    · rw [seen_communities htags (untouched_of_operator hneeds)]
      exact Later.refl _ _
  · refine (hown.later c).trans ?_
    rw [get?_view_community]
    split_ifs with hc
    · subst hc
      rw [hget]
      exact later_set hown htags hneeds hplan hget happlies
    · exact Later.refl _ _

theorem calm_exec (hown : Own env db done t) (hneeds : Needs done stmt)
    (heffect : Effect env t.now t.vars ((store env).seen db t) stmt v' ws) (c : CommunityId) :
    (.advisory c, .exclusive) ∈ t.held ∨ Calm (db.communities.get? c)
      ((view (store env).system ((store env).seen db t) ws).communities.get? c) := by
  rcases relation_community_cases heffect with hsame | ⟨target, u, row, rfl, -, hget, happlies, rfl⟩
  · rw [hsame]
    exact hown.calm c
  · rw [get?_view_community]
    split_ifs with hc
    · subst hc
      rcases hown.calm (target.of t.vars) with hheld | hcalm
      · exact .inl hheld
      · rcases calm_set hown hneeds happlies with hheld | hset
        · exact .inl hheld
        · rw [hget] at hcalm
          exact .inr (hcalm.trans hset)
    · exact hown.calm c

/-! ### Rows -/

theorem Cleared.mono (h : Cleared db t c) (hheld : ∀ x ∈ t.held, x ∈ t'.held)
    (hexecutor : t'.vars.executor = t.vars.executor ∨ t.vars.executor = none) :
    Cleared db t' c := by
  obtain ⟨hlock, row, hrow, hsealed⟩ := h
  refine ⟨hheld _ hlock, row, hrow, ?_⟩
  intro hs
  rcases hexecutor with hsame | hnone
  · rw [hsame]
    exact hsealed hs
  · rw [hsealed hs] at hnone
    cases hnone

theorem executor_kept (hown : Own env db done t) (hneeds : Needs done stmt)
    (heffect : Effect env t.now t.vars seen stmt v' ws) :
    v'.executor = t.vars.executor ∨ t.vars.executor = none := by
  rcases executor_var heffect with hsame | ⟨target, generation, rfl⟩
  · exact .inl hsame
  · rcases hown.executor with hnone | ⟨target', generation', hmem⟩
    · exact .inr hnone
    · exact absurd hmem (hneeds target' generation')

theorem writeOk_old (hown : Own env db done t) (hneeds : Needs done stmt)
    (heffect : Effect env t.now t.vars seen stmt v' ws) (h : WriteOk db t w) :
    WriteOk db (t.after rest locks v' ws) w := by
  have hheld : ∀ x ∈ t.held, x ∈ (t.after rest locks v' ws).held :=
    fun x hx => List.mem_append_left _ hx
  cases w with
  | tenant key old new =>
    intro hfenced c hc
    exact (h hfenced c hc).mono hheld (executor_kept hown hneeds heffect)
  | lease id row => exact fun r hr => (h r hr).mono hheld
  | _ => trivial

theorem cleared_of_assert (htags : Tagged db done t) (huntouched : Untouched .communities done)
    {v'' : Vars} (hlock : (.advisory c, .shared) ∈ t.held ++ locks)
    (hexecutor : v''.executor = t.vars.executor)
    (h : assertCommunityWriteAllowed ((store env).seen db t) t.now t.vars c = .ok ()) :
    Cleared db (t.after rest locks v'' ws) c := by
  obtain ⟨row, hrow, hsealed⟩ := assert_ok h
  rw [seen_communities htags huntouched] at hrow
  refine ⟨hlock, row, hrow, ?_⟩
  intro hs
  rw [Tx.after_vars, hexecutor]
  exact hsealed hs

theorem mem_rowsLeft {table : TableName} {x : RowKey × TenantRow} (h : x ∈ v.rowsLeft db table c) :
    x.1.1 = table ∧ x.2.communityId = some c := by
  unfold Vars.rowsLeft at h
  obtain ⟨id, -, hid⟩ := List.mem_filterMap.mp h
  rw [Option.map_eq_some_iff] at hid
  obtain ⟨row, hrow, rfl⟩ := hid
  obtain ⟨-, hc⟩ := filter_eq_some hrow
  exact ⟨rfl, by simpa using hc⟩

theorem writeOk_new (hown : Own env db done t) (htags : Tagged db done t) (hneeds : Needs done stmt)
    (heffect : Effect env t.now t.vars ((store env).seen db t) stmt v' ws) (hw : w ∈ ws) :
    WriteOk db (t.after rest (stmt.locks t.now t.vars ((store env).seen db t)) v' ws) w := by
  cases heffect with
  | writeRow hassert hchange =>
    rw [List.mem_singleton.mp hw]
    intro hfenced c hc
    rcases hown.pending _ hchange hfenced c hc with htarget | hcleared
    · refine cleared_of_assert htags hneeds ?_ rfl (assertAll_ok hassert c htarget)
      refine List.mem_append_right _ ?_
      simp only [Sql.locks]
      exact List.mem_append_left _ (List.mem_map.mpr ⟨c, htarget, rfl⟩)
    · exact hcleared.mono (fun x hx => List.mem_append_left _ hx) (.inl rfl)
  | deleteRows hassert =>
    rename_i table c
    obtain ⟨x, hx, rfl⟩ := List.mem_map.mp hw
    obtain ⟨htable, hrow⟩ := mem_rowsLeft hx
    intro hfenced c' hc'
    have hc : c' = c := by simpa [touched, hrow, eq_comm] using hc'
    subst hc
    have hrows : ((t.vars.rowsLeft ((store env).seen db t) table c').isEmpty) = false := by
      simpa using List.ne_nil_of_mem hx
    rw [htable] at hfenced
    rw [hrows, hfenced] at hassert
    refine cleared_of_assert htags hneeds ?_ rfl (assertAll_ok hassert c' (by simp))
    refine List.mem_append_right _ ?_
    simp [Sql.locks, hrows]
  | clearProvenance table c =>
    obtain ⟨x, hx, rfl⟩ := List.mem_map.mp hw
    obtain ⟨htable, -⟩ := mem_rowsLeft hx
    intro hfenced
    rw [htable] at hfenced
    rw [show table.fenced = false from hneeds] at hfenced
    cases hfenced
  | insertLease hget hactive =>
    rw [List.mem_singleton.mp hw]
    intro r hr
    cases hr
    refine ⟨List.mem_append_left _ (hown.known _ hneeds.1), ?_⟩
    rw [← seen_communities htags hneeds.2.1]
    exact ⟨_, hget, not_sealed_of_open (.inl hactive), rfl⟩
  | renewLease hrow =>
    rw [List.mem_singleton.mp hw]
    intro r hr
    cases hr
    obtain ⟨hcommunity, hfence, c, hc, hserves⟩ := serves_of_renewable hrow
    refine ⟨List.mem_append_left _ ?_, c, ?_, ?_⟩
    · rw [hcommunity]
      exact hown.known _ hneeds.1
    · rw [← seen_communities htags hneeds.2.1, hcommunity]
      exact hc
    · rw [hfence]
      exact hserves
  | releaseLease hrow =>
    rw [List.mem_singleton.mp hw]
    intro r hr
    cases hr
  | reapLeases ids =>
    obtain ⟨id, -, rfl⟩ := List.mem_map.mp hw
    intro r hr
    cases hr
  | deleteChunks hmay =>
    obtain ⟨no, -, rfl⟩ := List.mem_map.mp hw
    trivial
  | _ =>
    first
    | exact absurd hw List.not_mem_nil
    | rw [List.mem_singleton.mp hw]; trivial

theorem pending_exec (hown : Own env db done t) (htags : Tagged db done t)
    (hneeds : Needs done stmt)
    (heffect : Effect env t.now t.vars ((store env).seen db t) stmt v' ws) {change : RowChange}
    (hchange : v'.change = some change) (hfenced : change.key.1.fenced = true)
    (hc : c ∈ touched change.old change.new) : c ∈ v'.targets ∨
      Cleared db (t.after rest (stmt.locks t.now t.vars ((store env).seen db t)) v' ws) c := by
  have hheld : ∀ x ∈ t.held, x ∈ (t.after rest
      (stmt.locks t.now t.vars ((store env).seen db t)) v' ws).held :=
    fun x hx => List.mem_append_left _ hx
  have hkeep : v'.change = t.vars.change → v'.targets = t.vars.targets → c ∈ v'.targets ∨
      Cleared db (t.after rest (stmt.locks t.now t.vars ((store env).seen db t)) v' ws) c := by
    intro hsame htargets
    rw [hsame] at hchange
    rw [htargets]
    rcases hown.pending change hchange hfenced c hc with htarget | hcleared
    · exact .inl htarget
    · exact .inr (hcleared.mono hheld (executor_kept hown hneeds heffect))
  cases heffect with
  | read hrun =>
    cases readEffect_of_run hrun with
    | oldRow op =>
      have hop : op.change ((store env).seen db t) = some change := hchange
      refine .inl ?_
      simp only [RowOp.targets, hop, hfenced, if_true]
      exact mem_fenceTargets hc
    | _ => exact hkeep rfl rfl
  | assertTarget hassert =>
    rcases hown.pending change hchange hfenced c hc with htarget | hcleared
    · cases htargets : t.vars.targets with
      | nil =>
        rw [htargets] at htarget
        cases htarget
      | cons d ds =>
        rw [htargets] at htarget
        rcases List.mem_cons.mp htarget with rfl | htail
        · refine .inr (cleared_of_assert htags hneeds ?_ rfl (assertAll_ok hassert c ?_))
          · exact List.mem_append_right _ (by simp [Sql.locks, htargets])
          · simp [htargets]
        · exact .inl (by simpa [htargets] using htail)
    · exact .inr (hcleared.mono hheld (.inl rfl))
  | writeNothing hnone =>
    rw [show t.vars.change = none from hnone] at hchange
    cases hchange
  | writeRow hassert _ => cases hchange
  | _ => exact hkeep rfl rfl

theorem own_exec (hown : Own env db done t) (htags : Tagged db done t) (hneeds : Needs done stmt)
    (hplan : stmt ∈ t.call.plan)
    (heffect : Effect env t.now t.vars ((store env).seen db t) stmt v' ws) :
    Own env db (done ++ [stmt])
      (t.after rest (stmt.locks t.now t.vars ((store env).seen db t)) v' ws) where
  known k hk := by
    rcases List.mem_append.mp hk with hk | hk
    · exact known_old heffect hneeds hk (hown.known k hk)
    · rw [List.mem_singleton.mp hk]
      exact known_new hown htags hneeds heffect
  later c := by
    rw [Planned.seen_after]
    exact later_exec hown htags hneeds hplan heffect c
  calm c := by
    rw [Planned.seen_after]
    rcases calm_exec hown hneeds heffect c with hheld | hcalm
    · exact .inl (List.mem_append_left _ hheld)
    · exact .inr hcalm
  writes w hw := by
    rcases List.mem_append.mp hw with hw | hw
    · exact writeOk_old hown hneeds heffect (hown.writes w hw)
    · exact writeOk_new hown htags hneeds heffect hw
  pending change hchange hfenced c hc := pending_exec hown htags hneeds heffect hchange hfenced hc
  executor := by
    rcases executor_var heffect with hsame | ⟨target, generation, rfl⟩
    · rcases hown.executor with hnone | ⟨target, generation, hmem⟩
      · exact .inl (hsame.trans hnone)
      · exact .inr ⟨target, generation, List.mem_append_left _ hmem⟩
    · exact .inr ⟨target, generation, by simp⟩

end Exec

/-! ## The rule -/

theorem own_fresh (env : Env) (db : Db) (call : Call) (now : Int) :
    Own env db [] (fresh (store env).system call now) where
  known stmt hstmt := absurd hstmt List.not_mem_nil
  later c := Later.refl _ _
  calm c := .inr (Calm.refl _)
  writes w hw := absurd hw List.not_mem_nil
  pending change hchange := by cases hchange
  executor := .inl rfl

theorem inv_commit {env : Env} {p : DeletionPublic} {t : DeletionTx} (hinv : Inv p)
    (hown : Own env p.db t.call.plan t) : Inv (p.commit (store env).system t) where
  leases id row hrow := by
    rcases lease_of_view hrow with hold | hnew
    · exact (hinv.leases id row hold).later (hown.later _)
    · exact (past_of_serves (hown.writes _ hnew row rfl)).later (hown.later _)
  granted id c operation owner leaseSeconds vars handle hanswer hlease := by
    rcases List.mem_append.mp hanswer with hold | hnew
    · exact (hinv.granted id c operation owner leaseSeconds vars handle hold hlease).later
        (hown.later _)
    · rw [List.mem_singleton] at hnew
      obtain ⟨hcall, hvars⟩ := Prod.mk.inj hnew
      cases hvars
      have hmem : .insertLease id c operation owner leaseSeconds ∈ t.call.plan := by
        rw [← hcall]
        simp [Call.plan]
      obtain ⟨handle', hlease', rfl, -, row, hrow, hactive, hgen⟩ := hown.known _ hmem
      rw [hlease] at hlease'
      cases hlease'
      refine Past.later ⟨row, hrow, hgen.ge, ?_⟩ (hown.later _)
      intro hsealed
      exact absurd hsealed (not_sealed_of_open (.inl hactive))

theorem fenceRule (env : Env) :
    PlanRule (store env) .any (fun _ => True ∧ True) (fun db done t => True ∧ Tagged db done t) Inv
      (Own env) where
  advance _ _ h := ⟨h.leases, h.granted⟩
  refuse p call error h := by
    refine ⟨h.leases, ?_⟩
    intro id c operation owner leaseSeconds vars handle hanswer hlease
    rcases List.mem_append.mp hanswer with hold | hnew
    · exact h.granted id c operation owner leaseSeconds vars handle hold hlease
    · rw [List.mem_singleton] at hnew
      cases (Prod.mk.inj hnew).2
  begin p call _ := own_fresh env p.db call p.clock
  exec p done stmt todo t vars ws _ _ htags hown hplan _ hexec := by
    have hordered : Ordered Needs [] (done ++ stmt :: todo) := by
      rw [← hplan]
      exact plan_ordered t.call
    refine own_exec hown htags.2 (needs_of_ordered hordered) ?_ (effect_of_exec hexec)
    show stmt ∈ (store env).plan t.call
    rw [hplan]
    simp
  commit p t _ hinv _ hown _ _ _ := inv_commit hinv hown
  ownCommit p t u done _ _ _ ht _ hu hlt hlu hfit _ := own_commit ht hu hlt hlu hfit

/-! ## Whole runs -/

abbrev DeletionWorld := World Call Db Lock Vars Write DbError

abbrev FenceKept (env : Env) (s : DeletionWorld) : Prop :=
  Kept (fun p => True ∧ Inv p)
    (Open (store env) fun db done t => Tagged db done t ∧ Own env db done t) s

theorem rule (env : Env) : Rule (store env).system .any (fun p => True ∧ Inv p)
    (Open (store env) fun db done t => Tagged db done t ∧ Own env db done t) :=
  ((taggedRule env).and (fenceRule env)).always (disciplined env)

theorem kept_of_fresh {env : Env} {clock : Int} {db : Db} (hdb : db.Fresh) :
    FenceKept env (World.init clock db) := by
  refine kept_init clock ⟨trivial, ?_, ?_⟩
  · intro id row hrow
    rw [hdb.leases] at hrow
    cases hrow
  · intro id c operation owner leaseSeconds vars handle hanswer
    cases hanswer

/-- The transaction commits, and `s'` is the state after it. -/
def Commits (env : Env) (s : DeletionWorld) (t : DeletionTx) (s' : DeletionWorld) : Prop :=
  ∃ i, s.txs.get? i = some t ∧ step (store env).system s (.commit i) = some s'

structure Committed (env : Env) (s : DeletionWorld) (t : DeletionTx) (s' : DeletionWorld) :
    Prop where
  pub : s'.pub = s.pub.commit (store env).system t
  now : t.now ≤ s.pub.clock
  tagged : Tagged s.pub.db t.call.plan t
  own : Own env s.pub.db t.call.plan t

variable {s s' : DeletionWorld}

theorem Commits.committed {env : Env} {t : DeletionTx} (h : Commits env s t s')
    (hs : FenceKept env s) : Committed env s t s' := by
  obtain ⟨i, hopen, hstep⟩ := h
  simp only [step, hopen, Option.bind_eq_bind, Option.bind_some] at hstep
  split at hstep
  · rename_i hrest
    cases hstep
    obtain ⟨-, hnow, htagged, hown⟩ := (hs.own i t hopen).finished hrest
    exact ⟨rfl, hnow, htagged, hown⟩
  · cases hstep

def AbortAnswer (c : CommunityId) : Call × Except DbError Vars → Prop
  | (.abort _ _ _, .ok vars) => vars.community = c
  | _ => False

instance (c : CommunityId) (answer : Call × Except DbError Vars) :
    Decidable (AbortAnswer c answer) := by
  unfold AbortAnswer
  split <;> infer_instance

/-- The answers that `s'` has and `s` has not. -/
def newAnswers (s s' : DeletionWorld) : List (Call × Except DbError Vars) :=
  s'.pub.answers.drop s.pub.answers.length

def NoAbort (c : CommunityId) (s s' : DeletionWorld) : Prop :=
  ∀ answer ∈ newAnswers s s', ¬ AbortAnswer c answer

instance (c : CommunityId) (s s' : DeletionWorld) : Decidable (NoAbort c s s') :=
  List.decidableBAll _ _

theorem Later.mono {p q : Prop} (h : Later p a b) (hpq : p → q) : Later q a b := by
  intro c hc
  obtain ⟨c', hc', hgen, hseal, hrank⟩ := h c hc
  exact ⟨c', hc', hgen, hseal, fun hnot => hrank fun hp => hnot (hpq hp)⟩

structure Ahead (c : CommunityId) (s s' : DeletionWorld) : Prop where
  answers : s.pub.answers.length ≤ s'.pub.answers.length
  later : Later (∃ answer ∈ newAnswers s s', AbortAnswer c answer)
    (s.pub.db.communities.get? c) (s'.pub.db.communities.get? c)

theorem mem_newAnswers_append {s'' : DeletionWorld} {more : List (Call × Except DbError Vars)}
    (h : s''.pub.answers = s'.pub.answers ++ more)
    (hle : s.pub.answers.length ≤ s'.pub.answers.length) {answer : Call × Except DbError Vars} :
    answer ∈ newAnswers s s'' ↔ answer ∈ newAnswers s s' ∨ answer ∈ more := by
  unfold newAnswers
  rw [h, List.drop_append_of_le_length hle, List.mem_append]

theorem ahead_step {env : Env} {s'' : DeletionWorld} {a : Action Call DbError}
    (hkept : FenceKept env s') (h : Ahead c s s') (hstep : Step (store env).system s' a s'') :
    Ahead c s s'' := by
  cases hstep with
  | advance micros => exact ⟨h.answers, h.later⟩
  | begin call => exact ⟨h.answers, h.later⟩
  | exec hopen hrest hfree hexec => exact ⟨h.answers, h.later⟩
  | commit hopen hrest =>
    rename_i i t
    obtain ⟨-, -, -, hown⟩ := (hkept.own i t hopen).finished hrest
    have hmem : ∀ answer, answer ∈ newAnswers s { s' with
        pub := s'.pub.commit (store env).system t, txs := s'.txs.remove i } ↔
        answer ∈ newAnswers s s' ∨ answer ∈ [(t.call, Except.ok t.vars)] :=
      fun answer => mem_newAnswers_append rfl h.answers
    refine ⟨h.answers.trans (by simp [Public.commit]), ?_⟩
    refine Later.trans (h.later.mono ?_) ((hown.later c).mono ?_)
    · rintro ⟨answer, hanswer, habort⟩
      exact ⟨answer, (hmem answer).mpr (.inl hanswer), habort⟩
    · rintro ⟨⟨id, who, why, hcall⟩, hcommunity⟩
      refine ⟨(t.call, .ok t.vars), (hmem _).mpr (.inr List.mem_cons_self), ?_⟩
      rw [hcall]
      exact hcommunity
  | refuse hopen hrest hexec =>
    refine ⟨h.answers.trans (by simp [Public.refuse]), h.later.mono ?_⟩
    rintro ⟨answer, hanswer, habort⟩
    exact ⟨answer, (mem_newAnswers_append rfl h.answers).mpr (.inl hanswer), habort⟩
  | fail error hopen =>
    refine ⟨h.answers.trans (by simp [Public.refuse]), h.later.mono ?_⟩
    rintro ⟨answer, hanswer, habort⟩
    exact ⟨answer, (mem_newAnswers_append rfl h.answers).mpr (.inl hanswer), habort⟩

theorem ahead_run {env : Env} (c : CommunityId) {as : List (Action Call DbError)}
    (hkept : FenceKept env s) (hrun : run (step (store env).system) s as = some s') :
    Ahead c s s' := by
  have hboth : FenceKept env s' ∧ Ahead c s s' := by
    refine run_invariant (fun x => FenceKept env x ∧ Ahead c s x) ?_ ⟨hkept, ?_⟩ hrun
    · rintro x a y ⟨hx, hahead⟩ hstep
      exact ⟨(step_cases hstep).kept (rule env) (Guard.any_allows _ _) hx,
        ahead_step hx hahead (step_cases hstep)⟩
    · exact ⟨le_refl _, Later.refl _ _⟩
  exact hboth.2

/-! ## The executor and the holders of leases -/

def WritesRow (t : DeletionTx) (c : CommunityId) : Prop :=
  ∃ key old new, .tenant key old new ∈ t.writes ∧ key.1.fenced = true ∧ c ∈ touched old new

def ByExecutor (s : DeletionWorld) (t : DeletionTx) (c : CommunityId) : Prop :=
  ∃ token catalogError row, t.call = .purgePostgres token catalogError ∧
    token.communityId = c ∧ s.pub.db.communities.get? c = some row ∧
    token.fenceGeneration = some row.generation ∧ t.vars.executor = some (c, row.generation)

def UsesLease (t : DeletionTx) (handle : ServingWriteLease) : Prop :=
  (∃ leaseSeconds, t.call = .renewServingWriteLease handle leaseSeconds) ∨
    t.call = .verifyServingWriteLease handle ∨
    ∃ readCommitted ops, t.call = .serve readCommitted ops ∧ .guardWithServingLease handle ∈ ops

def Granted (s : DeletionWorld) (handle : ServingWriteLease) : Prop :=
  ∃ id c operation owner leaseSeconds vars,
    (.acquireServingWriteLease id c operation owner leaseSeconds, .ok vars) ∈ s.pub.answers ∧
      vars.lease = some handle

theorem tenants_in_plan {call : Call} {stmt : Sql} (hstmt : stmt ∈ call.plan)
    (hrel : stmt.relation = some .tenants) :
    (∃ readCommitted ops, call = .serve readCommitted ops) ∨
      ∃ token catalogError, call = .purgePostgres token catalogError := by
  cases call with
  | serve readCommitted ops => exact .inl ⟨readCommitted, ops, rfl⟩
  | purgePostgres token catalogError => exact .inr ⟨token, catalogError, rfl⟩
  | claim requestId owner leaseSeconds pick catalogError =>
    cases pick <;> cases catalogError <;>
      simp only [Call.plan, claimPlan, List.mem_cons, List.not_mem_nil, or_false] at hstmt
    all_goals
      rcases hstmt with rfl | rfl <;> simp [Sql.relation] at hrel
  | verifyExecutionToken token stage =>
    simp only [Call.plan] at hstmt
    split at hstmt <;> simp_all [Sql.relation]
  | stopExecutor token => cases token <;> simp_all [Call.plan, Sql.relation]
  | _ =>
    simp only [Call.plan, abortPlan, advanceRequestTx, advanceWithCheckpoint, List.cons_append,
      List.nil_append, List.mem_cons, List.not_mem_nil, or_false] at hstmt
    rcases hstmt with rfl | rfl | rfl | rfl | rfl | rfl | rfl | rfl | rfl <;>
      simp [Sql.relation] at hrel

theorem no_executor_in_serve {readCommitted : Bool} {ops : List TenantOp} {generation : Generation} :
    .setExecutor target generation ∉ (Call.serve readCommitted ops).plan := by
  intro h
  simp only [Call.plan, List.mem_cons, reduceCtorEq, false_or, List.mem_flatMap] at h
  obtain ⟨op, -, hop⟩ := h
  cases op <;> simp [TenantOp.plan] at hop

theorem byExecutor_of_sealed {env : Env} {u : DeletionTx} {row : Community}
    (hu : Committed env s u s') (hrow : s.pub.db.communities.get? c = some row)
    (hsealed : Sealed row) (hwrites : WritesRow u c) : ByExecutor s u c := by
  obtain ⟨key, old, new, hw, hfenced, htouched⟩ := hwrites
  obtain ⟨-, row', hrow', hcleared⟩ := hu.own.writes _ hw hfenced c htouched
  rw [hrow] at hrow'
  cases hrow'
  have hexecutor := hcleared hsealed
  obtain ⟨stmt, hstmt, hrel⟩ := hu.tagged _ hw
  rcases tenants_in_plan hstmt hrel with ⟨readCommitted, ops, hcall⟩ | ⟨token, catalogError, hcall⟩
  · rcases hu.own.executor with hnone | ⟨target, generation, hset⟩
    · rw [hnone] at hexecutor
      cases hexecutor
    · rw [hcall] at hset
      exact absurd hset no_executor_in_serve
  · have hset : .setExecutor (.known token.communityId) (.ofToken token) ∈ u.call.plan := by
      simp [hcall, Call.plan, purgePlan]
    have hknown := hu.own.known _ hset token.communityId token rfl rfl
    rw [hexecutor] at hknown
    obtain ⟨g, hg, heq⟩ := Option.map_eq_some_iff.mp hknown.symm
    cases heq
    exact ⟨token, catalogError, row, hcall, rfl, hrow, hg, hexecutor⟩

theorem usesLease_serves {env : Env} {u : DeletionTx} (hu : Committed env s u s')
    (huses : UsesLease u handle) :
    Pinned s.pub.db u handle.communityId (Serves handle.fenceGeneration) := by
  rcases huses with ⟨leaseSeconds, hcall⟩ | hcall | ⟨readCommitted, ops, hcall, hop⟩
  · exact hu.own.known (.renewLease handle leaseSeconds) (by simp [hcall, Call.plan])
  · exact hu.own.known (.check (.servingLease handle)) (by simp [hcall, Call.plan])
  · refine hu.own.known (.check (.servingLease handle)) ?_
    rw [hcall]
    refine List.mem_cons_of_mem _ (List.mem_flatMap.mpr ⟨_, hop, ?_⟩)
    simp [TenantOp.plan]

theorem row_of_committed {env : Env} {t : DeletionTx} {u : CommunityUpdate}
    (ht : Committed env s t s') (hplan : .community (.known c) u ∈ t.call.plan)
    (hmissing : u.missing c ≠ none) :
    ∃ row, s'.pub.db.communities.get? c = some row ∧ row.state = newState u := by
  obtain ⟨-, row, hrow, hstate⟩ := ht.own.known _ hplan hmissing
  refine ⟨row, ?_, hstate⟩
  rw [ht.pub]
  exact hrow

theorem sealed_of_fence {env : Env} {t : DeletionTx} {token : LeaseToken}
    (ht : Committed env s t s') (hcall : t.call = .fence token) :
    ∃ row, s'.pub.db.communities.get? token.communityId = some row ∧ Sealed row := by
  obtain ⟨row, hrow, hstate⟩ :=
    row_of_committed ht (c := token.communityId) (u := .fence) (by simp [hcall, Call.plan])
      (by simp [CommunityUpdate.missing])
  exact ⟨row, hrow, .inl hstate⟩

theorem leases_expired_of_fence {env : Env} {t : DeletionTx} {token : LeaseToken}
    (ht : Committed env s t s') (hcall : t.call = .fence token)
    (hrow : s'.pub.db.leases.get? id = some row) (hc : row.communityId = token.communityId) :
    row.leaseUntil < s'.pub.clock := by
  have huntouched : Untouched .leases t.call.plan := by
    simp [hcall, Call.plan, advanceRequestTx, Untouched, Sql.relation]
  have hsame : ((store env).seen s.pub.db t).leases = s.pub.db.leases :=
    seen_of_untouched leases_apply ht.tagged huntouched
  obtain ⟨-, hexpired⟩ := ht.own.known (.check (.drained (.known token.communityId) .fence))
    (by simp [hcall, Call.plan]) (by simp)
  rw [ht.pub] at hrow ⊢
  have hrow' : s.pub.db.leases.get? id = some row := by
    rw [← hsame]
    exact hrow
  exact Int.lt_of_lt_of_le (hexpired id row hrow' hc) ht.now

/-- The write fence of a community. From the commit of a fence to the commit of an abort, only
the purge of the executor that carries the current generation changes a row of a fenced table. A
fence commits only when the serving leases have expired, and a lease that was granted before it is
of no use again, whether the community becomes active again or not. From the commit of a
quiescing to the commit of an abort no lease is granted. -/
theorem write_fence_holds {env : Env} {db : Db} (hdb : db.Fresh) {clock : Int}
    {as bs : List (Action Call DbError)} {s₀ s₁ s₂ s₃ : DeletionWorld} {t u : DeletionTx}
    (hbefore : run (step (store env).system) (.init clock db) as = some s₀)
    (ht : Commits env s₀ t s₁) (hafter : run (step (store env).system) s₁ bs = some s₂)
    (hu : Commits env s₂ u s₃) :
    (∀ token, t.call = .fence token →
      (NoAbort token.communityId s₁ s₂ → WritesRow u token.communityId →
        ByExecutor s₂ u token.communityId) ∧
      (∀ id row, s₁.pub.db.leases.get? id = some row → row.communityId = token.communityId →
        row.leaseUntil < s₁.pub.clock) ∧
      ∀ handle leaseUntil, Granted s₀ handle → handle.communityId = token.communityId →
        ¬ UsesLease u { handle with leaseUntil }) ∧
    ∀ token, t.call = .beginQuiescing token → NoAbort token.communityId s₁ s₂ →
      ∀ id operation owner leaseSeconds,
        u.call ≠ .acquireServingWriteLease id token.communityId operation owner leaseSeconds := by
  have hs₀ : FenceKept env s₀ := run_keeps (rule env) (kept_of_fresh hdb) hbefore
  have hs₁ : FenceKept env s₁ := by
    obtain ⟨i, -, hstep⟩ := ht
    exact (step_cases hstep).kept (rule env) (Guard.any_allows _ _) hs₀
  have hs₂ : FenceKept env s₂ := run_keeps (rule env) hs₁ hafter
  replace ht := ht.committed hs₀
  replace hu := hu.committed hs₂
  refine ⟨?_, ?_⟩
  · intro token hcall
    obtain ⟨row, hrow, hsealed⟩ := sealed_of_fence ht hcall
    obtain ⟨row', hrow', hgen, -, hrank⟩ := (ahead_run token.communityId hs₁ hafter).later row hrow
    refine ⟨?_, fun id lease => leases_expired_of_fence ht hcall, ?_⟩
    · intro hnone hwrites
      refine byExecutor_of_sealed hu hrow' (sealed_of_rank ?_) hwrites
      refine (rank_of_sealed hsealed).trans (hrank ?_)
      rintro ⟨answer, hanswer, habort⟩
      exact hnone answer hanswer habort
    · intro handle leaseUntil ⟨id, c, operation, owner, leaseSeconds, vars, hanswer, hlease⟩ hc huses
      -- The fence has left the generation of the lease behind.
      have hpast : Past s₁.pub.db handle.communityId handle.fenceGeneration := by
        rw [ht.pub]
        exact (hs₀.inv.2.granted id c operation owner leaseSeconds vars handle hanswer hlease).later
          (ht.own.later _)
      obtain ⟨row₁, hrow₁, -, hlt⟩ := hpast
      rw [hc, hrow] at hrow₁
      cases hrow₁
      obtain ⟨-, row₂, hrow₂, -, hserves⟩ := usesLease_serves hu huses
      rw [show ({ handle with leaseUntil } : ServingWriteLease).communityId = token.communityId
        from hc, hrow'] at hrow₂
      cases hrow₂
      have hbehind := hlt hsealed
      simp only at hserves
      omega
  · intro token hcall hnone id operation owner leaseSeconds hacquire
    obtain ⟨row, hrow, hstate⟩ :=
      row_of_committed ht (c := token.communityId) (u := .quiesce) (by simp [hcall, Call.plan])
        (by simp [CommunityUpdate.missing])
    obtain ⟨row', hrow', -, -, hrank⟩ := (ahead_run token.communityId hs₁ hafter).later row hrow
    obtain ⟨handle, -, -, -, row₂, hrow₂, hactive, -⟩ := hu.own.known
      (.insertLease id token.communityId operation owner leaseSeconds)
      (by simp [hacquire, Call.plan])
    rw [hrow'] at hrow₂
    cases hrow₂
    have hle : rank row.state ≤ rank row'.state := by
      refine hrank ?_
      rintro ⟨answer, hanswer, habort⟩
      exact hnone answer hanswer habort
    rw [hstate, hactive] at hle
    exact absurd hle (by decide)

/-! ## One deletion from the submission to the purge -/

def emptySha : String := "e3b0c44298fc1c149afbf4c8996fb92427ae41e4649b934ca495991b7852b855"

def demoInventory : FrozenInventory := ⟨⟨[], [], []⟩, ⟨4, [⟨"git/", 0, 0, emptySha⟩]⟩⟩

def demoEnv : Env where
  lower s := s
  inventoryDigest _ :=
    [146, 125, 224, 223, 230, 133, 149, 79, 201, 235, 232, 13, 248, 26, 226, 237, 106, 101, 39,
      143, 156, 53, 168, 249, 63, 58, 140, 36, 124, 197, 184, 136]
  sha256Hex _ := emptySha

def demoDb : Db where
  communities := Table.set ∅ 1 ⟨"a.example", .active, 0, none, none⟩
  requests := ∅
  approvals := ∅
  chunks := ∅
  leases := ∅
  tenants := Table.set ∅ (.events, 5) ⟨some 1, "hello"⟩

def statements (tx : Nat) (call : Call) : List (Action Call DbError) :=
  .begin call :: List.replicate call.plan.length (.exec tx)

def whole (tx : Nat) (call : Call) : List (Action Call DbError) :=
  statements tx call ++ [Action.commit tx]

def demoToken : LeaseToken := ⟨2, "executor", 1, 1, none⟩

def demoFenced : LeaseToken := { demoToken with fenceGeneration := some 1 }

def demoBefore : List (Action Call DbError) :=
  whole 0 (.acquireServingWriteLease 9 1 "ingest" "relay" 1) ++
  whole 1 (.submit 2 "a.example" "operator" none) ++ whole 2 (.freezeInventory 2 demoInventory) ++
  whole 3 (.approve 2 "operator" none) ++ whole 4 (.claim none "executor" 1000 (some 2) none) ++
  whole 5 (.beginQuiescing demoToken) ++ [Action.advance 2000000] ++ statements 6 (.fence demoToken)

def demoAfter : List (Action Call DbError) :=
  whole 7 (.markDrained demoFenced) ++ whole 8 (.markBindingsRemoved demoFenced) ++
  statements 9 (.purgePostgres demoFenced none)

def demoHandle : ServingWriteLease := ⟨9, 1, "ingest", "relay", 1, 0, 1000000⟩

/-- The purge deletes the event behind the fence, as the executor of generation 1. -/
theorem write_fence_holds_purge :
    ∃ s₀ s₁ s₂ s₃ t u, run (step (store demoEnv).system) (.init 0 demoDb) demoBefore = some s₀ ∧
      Commits demoEnv s₀ t s₁ ∧ t.call = .fence demoToken ∧
      run (step (store demoEnv).system) s₁ demoAfter = some s₂ ∧ Commits demoEnv s₂ u s₃ ∧
      NoAbort 1 s₁ s₂ ∧ WritesRow u 1 ∧ Granted s₀ demoHandle ∧ ByExecutor s₂ u 1 ∧
      ¬ UsesLease u demoHandle := by
  have hrun : ((run (step (store demoEnv).system) (.init 0 demoDb) demoBefore).any fun s₀ =>
      decide ((.acquireServingWriteLease 9 1 "ingest" "relay" 1,
        .ok { Vars.init with lease := some demoHandle }) ∈ s₀.pub.answers) &&
      (s₀.txs.get? 6).any fun t => decide (t.call = .fence demoToken) &&
      (step (store demoEnv).system s₀ (.commit 6)).any fun s₁ =>
      (run (step (store demoEnv).system) s₁ demoAfter).any fun s₂ =>
      decide (NoAbort 1 s₁ s₂) &&
      (s₂.txs.get? 9).any fun u =>
        decide (.tenant (.events, 5) (some ⟨some 1, "hello"⟩) none ∈ u.writes) &&
        (step (store demoEnv).system s₂ (.commit 9)).isSome) = true := by
    decide +kernel
  simp only [Option.any_eq_true, Bool.and_eq_true, decide_eq_true_eq, Option.isSome_iff_exists]
    at hrun
  obtain ⟨s₀, hbefore, hanswer, t, ht, hcall, s₁, hfence, s₂, hafter, hnone, u, hu, hwrite, s₃,
    hpurge⟩ := hrun
  have hwrites : WritesRow u 1 := ⟨_, _, _, hwrite, rfl, by simp [touched]⟩
  have hgranted : Granted s₀ demoHandle := ⟨_, _, _, _, _, _, hanswer, rfl⟩
  obtain ⟨hexecutor, -, hlease⟩ := (write_fence_holds ⟨rfl, rfl, rfl, rfl⟩ hbefore ⟨6, ht, hfence⟩
    hafter ⟨9, hu, hpurge⟩).1 demoToken hcall
  exact ⟨s₀, s₁, s₂, s₃, t, u, hbefore, ⟨6, ht, hfence⟩, hcall, hafter, ⟨9, hu, hpurge⟩, hnone,
    hwrites, hgranted, hexecutor hnone hwrites, hlease demoHandle 1000000 hgranted rfl⟩

end Vingilot.Deletion.WriteFence
