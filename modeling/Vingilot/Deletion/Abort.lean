import Vingilot.Deletion.WriteFence

/-!
# What an abort restores

The first `begin_quiescing` of a request keeps the community's `archived_at` in the request, and
no other statement touches it there. Every fence generation that is handed out is one that the
community has reached, so the one that an abort sets is above all of them.
-/

namespace Vingilot.Deletion.Abort

open Transactions Machine WriteFence

/-! ## How a request changes -/

def Stays (a b : Option Request) : Prop :=
  ∀ r, a = some r → ∃ r', b = some r' ∧ r'.communityId = r.communityId ∧
    (r.quiescingStartedAt.isSome → r'.quiescingStartedAt.isSome ∧
      r'.preQuiesceArchivedAt = r.preQuiesceArchivedAt)

theorem Stays.refl (a : Option Request) : Stays a a :=
  fun r h => ⟨r, h, rfl, fun hstarted => ⟨hstarted, rfl⟩⟩

theorem Stays.trans {a b c : Option Request} (hab : Stays a b) (hbc : Stays b c) : Stays a c := by
  intro x hx
  obtain ⟨y, hy, hcommunity, hcaptured⟩ := hab x hx
  obtain ⟨z, hz, hcommunity', hcaptured'⟩ := hbc y hy
  refine ⟨z, hz, hcommunity'.trans hcommunity, ?_⟩
  intro hstarted
  obtain ⟨hstarted', hsame⟩ := hcaptured hstarted
  obtain ⟨hstarted'', hsame'⟩ := hcaptured' hstarted'
  exact ⟨hstarted'', hsame'.trans hsame⟩

variable {r : Request}

theorem stays_set {env : Env} {db : Db} {now : Int} {v : Vars} {id : Uuid} {u : RequestUpdate}
    (happlies : u.applies db now v id r = true) : Stays (some r) (some (u.set env now v r)) := by
  rintro _ ⟨⟩
  cases u with
  | noteQuiescing =>
    refine ⟨_, rfl, rfl, ?_⟩
    intro hstarted
    simp only [RequestUpdate.applies, Option.isNone_iff_eq_none] at happlies
    rw [happlies] at hstarted
    cases hstarted
  | _ => exact ⟨_, rfl, rfl, fun hstarted => ⟨hstarted, rfl⟩⟩

/-! ## Generations -/

def Reached (db : Db) (c : CommunityId) (g : Nat) : Prop :=
  ∃ row, db.communities.get? c = some row ∧ g ≤ row.generation

def Bounded (db : Db) (r : Request) : Prop :=
  ∀ g, r.fenceGeneration = some g → Reached db r.communityId g

variable {c : CommunityId} {g : Nat}

theorem Reached.later {db db' : Db} {aborts : Prop} (h : Reached db c g)
    (hlater : Later aborts (db.communities.get? c) (db'.communities.get? c)) : Reached db' c g := by
  obtain ⟨row, hrow, hle⟩ := h
  obtain ⟨row', hrow', hgen, -⟩ := hlater row hrow
  exact ⟨row', hrow', hle.trans hgen⟩

theorem Bounded.of_same {db : Db} {r' : Request} (h : Bounded db r)
    (hcommunity : r'.communityId = r.communityId) (hfence : r'.fenceGeneration = r.fenceGeneration) :
    Bounded db r' := by
  intro g hg
  rw [hcommunity]
  exact h g (hfence.symm.trans hg)

/-! ## What an open transaction knows -/

def KnownCommunity (db : Db) (t : DeletionTx) (c : CommunityId) : CommunityUpdate → Prop
  | .fence => ∃ row, seenCommunity db t c = some row ∧ row.generation = t.vars.generation
  | .restore =>
    ∃ row, db.communities.get? c = some row ∧ row.deletedAt = none ∧
      seenCommunity db t c = some { row with
        state := .active
        generation := t.vars.generation
        archivedAt := CommunityUpdate.restoredArchivedAt t.vars }
  | _ => True

def KnownRead (db : Db) (t : DeletionTx) : Read → Prop
  | .community target _ =>
    (.communityRow (target.of t.vars), .exclusive) ∈ t.held ∧
      ∃ row, db.communities.get? (target.of t.vars) = some row ∧
        t.vars.archivedAt = row.archivedAt
  | .requestCommunity id =>
    ∃ r, db.requests.get? id = some r ∧ r.communityId = t.vars.community
  | .abortRow id =>
    (.requestRow id, .exclusive) ∈ t.held ∧
      ∃ r, db.requests.get? id = some r ∧ t.vars.request = some r ∧
        r.communityId = t.vars.community
  | _ => True

def KnownRequest (env : Env) (db : Db) (t : DeletionTx) (id : Uuid) : RequestUpdate → Prop
  | .noteQuiescing =>
    ∃ r, ((store env).seen db t).requests.get? id = some r ∧ r.quiescingStartedAt.isSome ∧
      ∀ r₀, db.requests.get? id = some r₀ → r₀.quiescingStartedAt = none →
        r.preQuiesceArchivedAt = t.vars.archivedAt
  | _ => True

def TokenRow (db : Db) (token : LeaseToken) : Prop :=
  ∃ r, db.requests.get? token.requestId = some r ∧ r.communityId = token.communityId

def KnownCheck (db : Db) : Check → Prop
  | .lease token _ => TokenRow db token
  | .leaseAndFence token _ =>
    TokenRow db token ∧ ∀ g, token.fenceGeneration = some g → Reached db token.communityId g
  | _ => True

def Known (env : Env) (db : Db) (t : DeletionTx) : Sql → Prop
  | .check c => KnownCheck db c
  | .read r => KnownRead db t r
  | .request id u _ => KnownRequest env db t id u
  | .community target u => KnownCommunity db t (target.of t.vars) u
  | _ => True

/-! ## The order that this rests on -/

def setsRequest : Read → Bool
  | .abortRow _ | .approvalRow _ | .claimCandidate _ _ | .retryRow _ | .blockedRow _ _
  | .preclaimRow _ _ => true
  | _ => false

def ReadNeeds (done : List Sql) (r : Read) : Prop :=
  (setsRequest r = true →
    Untouched .communities done ∧ ∀ id, .read (.abortRow id) ∉ done) ∧
  match r with
  | .community _ _ => Untouched .requests done
  | .abortRow id => .read (.requestCommunity id) ∈ done ∧ Untouched .requests done
  | _ => True

def CheckNeeds (done : List Sql) : Check → Prop
  | .lease _ _ | .leaseAndFence _ _ => Untouched .requests done ∧ Untouched .communities done
  | _ => True

def RequestNeeds (done : List Sql) (id : Uuid) : RequestUpdate → Prop
  | .noteQuiescing =>
    (∃ token stage, .check (.lease token stage) ∈ done ∧ token.requestId = id) ∧
      Untouched .requests done
  | .advance token _ _ generation =>
    id = token.requestId ∧
      ((generation = .ofToken token ∧ ∃ stage, .check (.leaseAndFence token stage) ∈ done) ∨
        (generation = .read ∧ .community (.known token.communityId) .fence ∈ done ∧
          ∃ stage, .check (.lease token stage) ∈ done))
  | .abort _ _ => .community .ofRequest .restore ∈ done ∧ .read (.abortRow id) ∈ done
  | _ => True

def Needs (done : List Sql) : Sql → Prop
  | .check c => CheckNeeds done c
  | .read r => ReadNeeds done r
  | .request id u _ => RequestNeeds done id u
  | _ => True

def Free : Sql → Prop
  | .read (.community _ _) | .request _ _ _ | .check (.lease _ _) | .check (.leaseAndFence _ _) => False
  | .read r => setsRequest r = false
  | _ => True

theorem needs_of_free {done : List Sql} {stmt : Sql} (h : Free stmt) : Needs done stmt := by
  cases stmt with
  | read r =>
    cases r with
    | oldRow _ | scanRows _ _ | scanChunks _ | nextPending _ | submitTarget _ _
    | requestCommunity _ | lockRequest _ => exact ⟨(fun hsets => by cases hsets), trivial⟩
    | _ => cases h
  | request id u e => cases h
  | check c => cases c <;> trivial
  | _ => trivial

theorem ordered_of_free {done todo : List Sql} (h : ∀ stmt ∈ todo, Free stmt) :
    Ordered Needs done todo := by
  induction todo generalizing done with
  | nil => trivial
  | cons stmt todo ih =>
    exact ⟨needs_of_free (h stmt List.mem_cons_self),
      ih fun stmt' hstmt' => h stmt' (List.mem_cons_of_mem _ hstmt')⟩

theorem free_tenantOp (op : TenantOp) : ∀ stmt ∈ op.plan, Free stmt := by
  cases op <;> simp [TenantOp.plan, Free, setsRequest]

theorem free_sweep (token : LeaseToken) :
    ∀ stmt ∈ ([TableName.productFeedback, .rateLimitViolations].flatMap fun table =>
        [Sql.read (.scanRows table token.communityId), .clearProvenance table token.communityId]) ++
      (purgeScopedTables.flatMap fun table =>
        [Sql.read (.scanRows table token.communityId), .deleteRows table token.communityId]),
      Free stmt := by
  intro stmt hstmt
  simp only [List.mem_append, List.mem_flatMap, List.mem_cons, List.not_mem_nil, or_false] at hstmt
  rcases hstmt with ⟨table, -, rfl | rfl⟩ | ⟨table, -, rfl | rfl⟩
  · rfl
  · trivial
  · rfl
  · trivial

theorem ordered_purge (token : LeaseToken) (catalogError : Option DbError) :
    Ordered Needs [] (purgePlan token catalogError) := by
  unfold purgePlan advanceRequestTx
  simp only [List.append_assoc]
  rw [ordered_append]
  refine ⟨?_, ?_⟩
  · simp [Ordered, Needs, CheckNeeds, Untouched, Sql.relation]
  · rw [← List.append_assoc, ordered_append, List.singleton_append]
    exact ⟨ordered_of_free (free_sweep token), trivial, trivial,
      ⟨rfl, .inl ⟨rfl, .bindingsRemoved, by simp⟩⟩, trivial⟩

theorem plan_ordered (call : Call) : Ordered Needs [] call.plan := by
  cases call with
  | serve readCommitted ops =>
    refine ordered_of_free ?_
    intro stmt hstmt
    simp only [Call.plan, List.mem_cons, List.mem_flatMap] at hstmt
    rcases hstmt with rfl | ⟨op, -, hop⟩
    · trivial
    · exact free_tenantOp op stmt hop
  | purgePostgres token catalogError => exact ordered_purge token catalogError
  | claim requestId owner leaseSeconds pick catalogError =>
    cases pick with
    | none => trivial
    | some id =>
      cases catalogError <;>
        simp [Call.plan, claimPlan, Ordered, Needs, ReadNeeds, RequestNeeds, setsRequest, Untouched]
  | verifyExecutionToken token stage =>
    simp only [Call.plan]
    split <;> simp [Ordered, Needs, CheckNeeds, Untouched]
  | stopExecutor token =>
    cases token with
    | none => trivial
    | some token => exact ⟨trivial, trivial⟩
  | _ =>
    simp [Call.plan, abortPlan, advanceRequestTx, advanceWithCheckpoint, Ordered, Needs, CheckNeeds,
      ReadNeeds, RequestNeeds, setsRequest, Untouched, Sql.relation]

/-! ## The transaction's own statements -/

variable {seen : Db}

section Exec

variable {env : Env} {db : Db} {done : List Sql} {t : DeletionTx} {stmt : Sql} {v' : Vars}
  {ws : List Write} {rest : List (Statement Db Lock Vars Write DbError)}

theorem community_vars (heffect : Effect env t.now t.vars seen stmt v' ws) :
    (v'.archivedAt = t.vars.archivedAt ∧ v'.generation = t.vars.generation) ∨
      ∃ target next, stmt = .read (.community target next) := by
  cases heffect with
  | read hrun =>
    cases readEffect_of_run hrun with
    | community hget => exact .inr ⟨_, _, rfl⟩
    | _ => exact .inl ⟨rfl, rfl⟩
  | _ => exact .inl ⟨rfl, rfl⟩

theorem request_var (heffect : Effect env t.now t.vars seen stmt v' ws) :
    v'.request = t.vars.request ∨ ∃ r, stmt = .read r ∧ setsRequest r = true := by
  cases heffect with
  | read hrun =>
    cases readEffect_of_run hrun with
    | abortRow | approvalRow | claimCandidate | retryRow | blockedRow | preclaimRow =>
      exact .inr ⟨_, rfl, rfl⟩
    | _ => exact .inl rfl
  | _ => exact .inl rfl

theorem stays_effect (heffect : Effect env t.now t.vars seen stmt v' ws) (id : Uuid) :
    Stays (seen.requests.get? id) ((view (store env).system seen ws).requests.get? id) := by
  by_cases hrel : stmt.relation = some .requests
  · cases heffect with
    | request hget happlies hguard =>
      show Stays _ ((seen.requests.set _ _).get? id)
      rw [Table.get?_set]
      split_ifs with heq
      · rw [heq, hget]
        exact stays_set happlies
      · exact Stays.refl _
    | insertRequest htarget hfree hnew =>
      show Stays _ ((seen.requests.set _ _).get? id)
      rw [Table.get?_set]
      split_ifs with heq
      · rw [heq, hnew]
        intro r hr
        cases hr
      · exact Stays.refl _
    | noRequest | existingRequest => exact Stays.refl _
    | _ => cases hrel
  · rw [heffect.read_view requests_apply hrel]
    exact Stays.refl _

theorem seenCommunity_effect (heffect : Effect env t.now t.vars ((store env).seen db t) stmt v' ws)
    (hrel : stmt.relation ≠ some .communities) (locks : List (Lock × Mode)) (c : CommunityId) :
    seenCommunity db (t.after rest locks v' ws) c = seenCommunity db t c := by
  show ((store env).seen db (t.after rest locks v' ws)).communities.get? c = _
  rw [Planned.seen_after, heffect.read_view communities_apply hrel]
  rfl

theorem known_old (heffect : Effect env t.now t.vars ((store env).seen db t) stmt v' ws)
    (hneeds : Needs done stmt) (hfence : WriteFence.Needs done stmt) {k : Sql} (hk : k ∈ done)
    (h : Known env db t k) (locks : List (Lock × Mode)) :
    Known env db (t.after rest locks v' ws) k := by
  have hcommunity : k.relation = some .communities ∨ (∃ r, k = .read r) →
      v'.community = t.vars.community := by
    intro hkind
    rcases community_var heffect with hsame | ⟨id, rfl⟩
    · exact hsame
    · obtain ⟨e, who, why, rfl⟩ := hfence k hk
      rcases hkind with hkind | ⟨r, hkind⟩ <;> cases hkind
  cases k with
  | read r =>
    have htarget := target_of_same (hcommunity (.inr ⟨r, rfl⟩))
    cases r with
    | community target next =>
      obtain ⟨hlock, row, hrow, harchived⟩ := h
      have hsame : v'.archivedAt = t.vars.archivedAt := by
        rcases community_vars heffect with hsame | ⟨target', next', rfl⟩
        · exact hsame.1
        · exact absurd hk (hfence.1 target next)
      show (Lock.communityRow (target.of v'), Mode.exclusive) ∈ t.held ++ locks ∧
        ∃ row, db.communities.get? (target.of v') = some row ∧ v'.archivedAt = row.archivedAt
      rw [htarget, hsame]
      exact ⟨List.mem_append_left _ hlock, row, hrow, harchived⟩
    | requestCommunity id =>
      obtain ⟨r, hr, heq⟩ := h
      exact ⟨r, hr, heq.trans (hcommunity (.inr ⟨_, rfl⟩)).symm⟩
    | abortRow id =>
      obtain ⟨hlock, r, hr, hrequest, heq⟩ := h
      have hsame : v'.request = t.vars.request := by
        rcases request_var heffect with hsame | ⟨r', rfl, hsets⟩
        · exact hsame
        · exact absurd hk ((hneeds.1 hsets).2 id)
      exact ⟨List.mem_append_left _ hlock, r, hr, hsame.trans hrequest,
        heq.trans (hcommunity (.inr ⟨_, rfl⟩)).symm⟩
    | _ => trivial
  | request id u e =>
    cases u with
    | noteQuiescing =>
      obtain ⟨r, hr, hstarted, hcaptured⟩ := h
      have hsame : v'.archivedAt = t.vars.archivedAt := by
        rcases community_vars heffect with hsame | ⟨target', next', rfl⟩
        · exact hsame.1
        · exact absurd rfl (hneeds.2 _ hk)
      obtain ⟨r', hr', -, hkeeps⟩ := stays_effect heffect id r hr
      refine ⟨r', ?_, (hkeeps hstarted).1, ?_⟩
      · rw [Planned.seen_after]
        exact hr'
      · intro r₀ hr₀ hnot
        exact ((hkeeps hstarted).2.trans (hcaptured r₀ hr₀ hnot)).trans hsame.symm
    | _ => trivial
  | community target u =>
    have htarget := target_of_same (hcommunity (.inl rfl)) target
    have hrel : stmt.relation ≠ some .communities := by
      intro hrel
      cases stmt with
      | community target' u' => exact untouched_of_communityNeeds hfence _ hk rfl
      | _ => cases hrel
    have hvars : v'.archivedAt = t.vars.archivedAt ∧ v'.generation = t.vars.generation := by
      rcases community_vars heffect with hsame | ⟨target', next', rfl⟩
      · exact hsame
      · exact absurd rfl (hfence.2 _ hk)
    have hrequest : v'.request = t.vars.request := by
      rcases request_var heffect with hsame | ⟨r', rfl, hsets⟩
      · exact hsame
      · exact absurd rfl ((hneeds.1 hsets).1 _ hk)
    show KnownCommunity db (t.after rest locks v' ws) (target.of v') u
    rw [htarget]
    cases u with
    | fence =>
      obtain ⟨row, hrow, hgen⟩ := h
      exact ⟨row, (seenCommunity_effect heffect hrel locks _).trans hrow, hgen.trans hvars.2.symm⟩
    | restore =>
      obtain ⟨row, hrow, hdeleted, hseen⟩ := h
      refine ⟨row, hrow, hdeleted, ?_⟩
      rw [seenCommunity_effect heffect hrel locks, hseen]
      simp only [Tx.after_vars, CommunityUpdate.restoredArchivedAt, hvars.1, hvars.2, hrequest]
    | _ => trivial
  | check c => exact h
  | _ => trivial

end Exec

/-! ## The conditions of open transactions -/

structure Own (env : Env) (db : Db) (done : List Sql) (t : DeletionTx) : Prop where
  known : ∀ stmt ∈ done, Known env db t stmt
  stays : ∀ id, Stays (db.requests.get? id) (((store env).seen db t).requests.get? id)
  bounded : ∀ id r, ((store env).seen db t).requests.get? id = some r →
    Bounded ((store env).seen db t) r
  started : ∀ id r, ((store env).seen db t).requests.get? id = some r →
    r.quiescingStartedAt.isSome →
      (∃ r₀, db.requests.get? id = some r₀ ∧ r₀.quiescingStartedAt.isSome) ∨
        ∃ token, t.call = .beginQuiescing token ∧ token.requestId = id
  claimed : ∀ wanted owner leaseSeconds pick catalogError r,
    t.call = .claim wanted owner leaseSeconds pick catalogError → t.vars.returned = some r →
      Bounded ((store env).seen db t) r

variable {token : LeaseToken} {call : Call}

section Exec

variable {env : Env} {db : Db} {done : List Sql} {t : DeletionTx} {stmt : Sql} {v' : Vars}
  {ws : List Write} {rest : List (Statement Db Lock Vars Write DbError)}

theorem seen_requests (htags : Tagged db done t) (h : Untouched .requests done) :
    ((store env).seen db t).requests = db.requests :=
  seen_of_untouched requests_apply htags h

theorem tokenRow_of_verify {now : Int} {stage : DeletionStage}
    (h : verifyLease seen now token stage = true) : TokenRow seen token := by
  unfold verifyLease at h
  simp only [Option.any_eq_true, Bool.and_eq_true, beq_iff_eq] at h
  obtain ⟨r, hr, ⟨⟨⟨hcommunity, -⟩, -⟩, -⟩, -⟩ := h
  exact ⟨r, hr, hcommunity⟩

theorem reached_of_fenceCurrent (hrow : TokenRow seen token) (h : fenceCurrent seen token = true)
    (hg : token.fenceGeneration = some g) : Reached seen token.communityId g := by
  obtain ⟨r, hr, hcommunity⟩ := hrow
  unfold fenceCurrent at h
  simp only [hr, Option.any_some, Bool.and_eq_true, Option.any_eq_true, beq_iff_eq] at h
  obtain ⟨-, c, hc, -, hgen⟩ := h
  rw [hg, Option.some.injEq] at hgen
  rw [hcommunity] at hc
  exact ⟨c, hc, hgen.le⟩

theorem known_new (hown : Own env db done t) (htags : Tagged db done t)
    (hneeds : Needs done stmt) (hfence : WriteFence.Needs done stmt)
    (heffect : Effect env t.now t.vars ((store env).seen db t) stmt v' ws) :
    Known env db (t.after rest (stmt.locks t.now t.vars ((store env).seen db t)) v' ws) stmt := by
  cases heffect with
  | check hrun =>
    rename_i c
    cases c with
    | lease token stage =>
      obtain ⟨r, hr, hcommunity⟩ := tokenRow_of_verify (require_ok.mp hrun)
      rw [seen_requests htags hneeds.1] at hr
      exact ⟨r, hr, hcommunity⟩
    | leaseAndFence token stage =>
      have hverified := require_ok.mp hrun
      simp only [verifyLeaseAndFence, Bool.and_eq_true] at hverified
      have hrow := tokenRow_of_verify hverified.1
      refine ⟨?_, ?_⟩
      · obtain ⟨r, hr, hcommunity⟩ := hrow
        rw [seen_requests htags hneeds.1] at hr
        exact ⟨r, hr, hcommunity⟩
      · intro g hg
        obtain ⟨row, hc, hle⟩ := reached_of_fenceCurrent hrow hverified.2 hg
        rw [seen_communities htags hneeds.2] at hc
        exact ⟨row, hc, hle⟩
    | _ => trivial
  | read hrun =>
    cases readEffect_of_run hrun with
    | community hget =>
      rw [seen_communities htags hfence.2] at hget
      exact ⟨List.mem_append_right _ (by simp [Sql.locks, Read.locks]; rfl), _, hget, rfl⟩
    | requestCommunity hget =>
      rw [seen_requests htags (untouched_of_operator hfence)] at hget
      exact ⟨_, hget, rfl⟩
    | abortRow hget hstage =>
      rename_i id r
      obtain ⟨-, hnamed, huntouched⟩ := hneeds
      have hlock : (Lock.requestRow id, Mode.exclusive) ∈
          (Sql.read (.abortRow id)).locks t.now t.vars ((store env).seen db t) := by
        simp [Sql.locks, Read.locks, Read.requestLocks, hget, Read.finds]
      rw [seen_requests htags huntouched] at hget
      obtain ⟨r', hr', hcommunity⟩ := hown.known _ hnamed
      rw [hget] at hr'
      cases hr'
      exact ⟨List.mem_append_right _ hlock, r, hget, rfl, hcommunity⟩
    | _ => trivial
  | request hget happlies hguard =>
    rename_i id u e r
    cases u with
    | noteQuiescing =>
      refine ⟨RequestUpdate.noteQuiescing.set env t.now t.vars r, ?_, rfl, fun _ _ _ => rfl⟩
      rw [Planned.seen_after]
      exact (Table.get?_set ..).trans (if_pos rfl)
    | _ => trivial
  | noRequest hnone =>
    rename_i id u
    cases u with
    | noteQuiescing =>
      obtain ⟨⟨token, stage, hlease, rfl⟩, huntouched⟩ := hneeds
      obtain ⟨r, hr, -⟩ := hown.known _ hlease
      rw [seen_requests htags huntouched, hr] at hnone
      have hstarted : r.quiescingStartedAt.isSome := by
        simpa [Option.filter, RequestUpdate.applies, Option.isSome_iff_ne_none] using hnone
      refine ⟨r, ?_, hstarted, ?_⟩
      · rw [Planned.seen_after]
        show ((store env).seen db t).requests.get? _ = _
        rw [seen_requests htags huntouched]
        exact hr
      · intro r₀ hr₀ hnot
        rw [hr] at hr₀
        cases hr₀
        rw [hnot] at hstarted
        cases hstarted
    | _ => trivial
  | community hget happlies hguard =>
    rename_i target u row
    have hseen : seenCommunity db (t.after rest
        ((Sql.community target u).locks t.now t.vars ((store env).seen db t)) t.vars
        [.community (target.of t.vars) (u.set t.now t.vars row)]) (target.of t.vars) =
        some (u.set t.now t.vars row) := by
      show ((store env).seen db (t.after rest _ t.vars _)).communities.get? _ = _
      rw [Planned.seen_after, get?_view_community, if_pos rfl]
    cases u with
    | fence => exact ⟨_, hseen, rfl⟩
    | restore =>
      rw [seen_communities htags hfence.2.2] at hget
      simp only [CommunityUpdate.applies, Bool.and_eq_true, Option.isNone_iff_eq_none] at happlies
      exact ⟨row, hget, happlies.2, hseen⟩
    | _ => trivial
  | noCommunity hmissing =>
    rename_i target u
    cases u with
    | fence => cases hmissing
    | restore => cases hmissing
    | _ => trivial
  | _ => trivial

/-! ### Generations -/

variable (hown : Own env db done t) (hfown : WriteFence.Own env db done t)
  (htags : Tagged db done t) (hneeds : Needs done stmt) (hfence : WriteFence.Needs done stmt)
  (hplan : stmt ∈ t.call.plan)
  (heffect : Effect env t.now t.vars ((store env).seen db t) stmt v' ws)

include hfown htags hfence hplan heffect in
theorem reached_effect (h : Reached ((store env).seen db t) c g) :
    Reached (view (store env).system ((store env).seen db t) ws) c g := by
  rcases relation_community_cases heffect with
    hsame | ⟨target, u, row, rfl, -, hget, happlies, rfl⟩
  · obtain ⟨row, hrow, hle⟩ := h
    exact ⟨row, (congrArg (Table.get? · c) hsame).trans hrow, hle⟩
  · have hlater := later_set hfown htags hfence hplan hget happlies
    have hstep : Later (AbortsCommunity t (target.of t.vars))
        (((store env).seen db t).communities.get? c)
        ((view (store env).system ((store env).seen db t)
          [.community (target.of t.vars) (u.set t.now t.vars row)]).communities.get? c) := by
      rw [get?_view_community]
      split_ifs with hc
      · rw [hc, hget]
        exact hlater
      · exact Later.refl _ _
    exact h.later hstep

include hown in
theorem community_of_seen {id : Uuid} {r₀ : Request} (h₀ : db.requests.get? id = some r₀)
    (h : ((store env).seen db t).requests.get? id = some r) : r.communityId = r₀.communityId := by
  obtain ⟨r', hr', hcommunity, -⟩ := hown.stays id r₀ h₀
  rw [h] at hr'
  cases hr'
  exact hcommunity

include hown hfown hneeds in
theorem bounded_set {id : Uuid} {u : RequestUpdate} {e : Option DbError}
    (hstmt : stmt = .request id u e) (hget : ((store env).seen db t).requests.get? id = some r) :
    Bounded ((store env).seen db t) (u.set env t.now t.vars r) := by
  subst hstmt
  have hold := hown.bounded id r hget
  cases u with
  | advance token source target generation =>
    obtain ⟨rfl, htoken⟩ := hneeds
    intro g hg
    show Reached _ r.communityId g
    simp only [RequestUpdate.set] at hg
    rcases htoken with ⟨rfl, stage, hcheck⟩ | ⟨rfl, hcommunity, stage, hcheck⟩
    · obtain ⟨⟨r₀, hr₀, htarget⟩, hreached⟩ := hown.known _ hcheck
      simp only [Generation.of] at hg
      cases hfenceGeneration : token.fenceGeneration with
      | some g' =>
        rw [hfenceGeneration] at hg
        cases hg
        rw [community_of_seen hown hr₀ hget, htarget]
        exact (hreached g hfenceGeneration).later (hfown.later _)
      | none =>
        rw [hfenceGeneration] at hg
        exact hold g hg
    · obtain ⟨r₀, hr₀, htarget⟩ := hown.known _ hcheck
      obtain ⟨row, hrow, hgen⟩ := hown.known _ hcommunity
      cases hg
      rw [community_of_seen hown hr₀ hget, htarget]
      exact ⟨row, hrow, hgen.ge⟩
  | abort abortedBy reason =>
    obtain ⟨hrestore, habort⟩ := hneeds
    obtain ⟨-, r₀, hr₀, -, htarget⟩ := hown.known _ habort
    obtain ⟨row, -, -, hseen⟩ := hown.known _ hrestore
    intro g hg
    cases hg
    show Reached _ r.communityId _
    rw [community_of_seen hown hr₀ hget, htarget]
    exact ⟨_, hseen, le_refl _⟩
  | _ => exact hold.of_same rfl rfl

include hown hfown htags hneeds hfence hplan heffect in
theorem bounded_effect {id : Uuid}
    (h : (view (store env).system ((store env).seen db t) ws).requests.get? id = some r) :
    Bounded (view (store env).system ((store env).seen db t) ws) r := by
  have hmono : Bounded ((store env).seen db t) r →
      Bounded (view (store env).system ((store env).seen db t) ws) r :=
    fun hbounded g hg => reached_effect hfown htags hfence hplan heffect (hbounded g hg)
  by_cases hrel : stmt.relation = some .requests
  · cases heffect with
    | request hget happlies hguard =>
      replace h := (Table.get?_set ..).symm.trans h
      split_ifs at h with heq
      · cases h
        exact hmono (bounded_set hown hfown hneeds rfl hget)
      · exact hmono (hown.bounded id r h)
    | insertRequest htarget hfree hnew =>
      replace h := (Table.get?_set ..).symm.trans h
      split_ifs at h with heq
      · cases h
        intro g hg
        cases hg
      · exact hmono (hown.bounded id r h)
    | noRequest => exact hmono (hown.bounded id r h)
    | existingRequest => exact hmono (hown.bounded id r h)
    | _ => cases hrel
  · rw [heffect.read_view requests_apply hrel] at h
    exact hmono (hown.bounded id r h)

theorem note_in_plan {id : Uuid} {e : Option DbError} (h : .request id .noteQuiescing e ∈ call.plan) :
    ∃ token, call = .beginQuiescing token ∧ token.requestId = id := by
  cases call with
  | beginQuiescing token =>
    simp only [Call.plan, List.mem_cons, reduceCtorEq, false_or, or_false, List.not_mem_nil,
      Sql.request.injEq] at h
    exact ⟨token, rfl, h.1.symm⟩
  | serve readCommitted ops =>
    simp only [Call.plan, List.mem_cons, reduceCtorEq, false_or, List.mem_flatMap] at h
    obtain ⟨op, -, hop⟩ := h
    cases op <;> simp [TenantOp.plan] at hop
  | claim requestId owner leaseSeconds pick catalogError =>
    cases pick <;> cases catalogError <;> simp [Call.plan, claimPlan] at h
  | verifyExecutionToken token stage =>
    simp only [Call.plan] at h
    split at h <;> simp at h
  | stopExecutor token => cases token <;> simp [Call.plan] at h
  | purgePostgres token catalogError => simp [Call.plan, purgePlan, advanceRequestTx] at h
  | _ => simp [Call.plan, abortPlan, advanceRequestTx, advanceWithCheckpoint] at h

include hown hplan heffect in
theorem started_effect {id : Uuid}
    (h : (view (store env).system ((store env).seen db t) ws).requests.get? id = some r)
    (hstarted : r.quiescingStartedAt.isSome) :
    (∃ r₀, db.requests.get? id = some r₀ ∧ r₀.quiescingStartedAt.isSome) ∨
      ∃ token, t.call = .beginQuiescing token ∧ token.requestId = id := by
  by_cases hrel : stmt.relation = some .requests
  · cases heffect with
    | request hget happlies hguard =>
      rename_i id' u e r'
      replace h := (Table.get?_set ..).symm.trans h
      split_ifs at h with heq
      · cases h
        subst heq
        cases u with
        | noteQuiescing => exact .inr (note_in_plan hplan)
        | _ => exact hown.started id r' hget hstarted
      · exact hown.started id r h hstarted
    | insertRequest htarget hfree hnew =>
      replace h := (Table.get?_set ..).symm.trans h
      split_ifs at h with heq
      · cases h
        cases hstarted
      · exact hown.started id r h hstarted
    | noRequest => exact hown.started id r h hstarted
    | existingRequest => exact hown.started id r h hstarted
    | _ => cases hrel
  · rw [heffect.read_view requests_apply hrel] at h
    exact hown.started id r h hstarted

theorem returned_var (h : Effect env t.now t.vars seen stmt v' ws) :
    v'.returned = t.vars.returned ∨ stmt.relation = some .requests := by
  cases h with
  | read hrun => cases readEffect_of_run hrun <;> exact .inl rfl
  | request | insertRequest | existingRequest | noRequest => exact .inr rfl
  | _ => exact .inl rfl

include hown hfown htags hneeds hfence hplan heffect in
theorem claimed_effect {wanted : Option Uuid} {owner : String} {leaseSeconds : Nat}
    {pick : Option Uuid} {catalogError : Option String}
    (hcall : t.call = .claim wanted owner leaseSeconds pick catalogError)
    (hr : v'.returned = some r) :
    Bounded (view (store env).system ((store env).seen db t) ws) r := by
  have hmono : t.vars.returned = some r →
      Bounded (view (store env).system ((store env).seen db t) ws) r := fun hold g hg =>
    reached_effect hfown htags hfence hplan heffect
      (hown.claimed wanted owner leaseSeconds pick catalogError r hcall hold g hg)
  rcases returned_var heffect with hsame | hrel
  · exact hmono (hsame.symm.trans hr)
  · have hkept := heffect
    cases heffect with
    | request hget happlies hguard =>
      cases hr
      exact bounded_effect hown hfown htags hneeds hfence hplan hkept
        ((Table.get?_set ..).trans (if_pos rfl))
    | noRequest => exact hmono hr
    | insertRequest | existingRequest =>
      rw [hcall] at hplan
      cases pick <;> cases catalogError <;> simp [Call.plan, claimPlan] at hplan
    | _ => cases hrel

include hown hfown htags hneeds hfence hplan heffect in
theorem own_exec :
    Own env db (done ++ [stmt])
      (t.after rest (stmt.locks t.now t.vars ((store env).seen db t)) v' ws) where
  known k hk := by
    rcases List.mem_append.mp hk with hk | hk
    · exact known_old heffect hneeds hfence hk (hown.known k hk) _
    · rw [List.mem_singleton.mp hk]
      exact known_new hown htags hneeds hfence heffect
  stays id := by
    rw [Planned.seen_after]
    exact (hown.stays id).trans (stays_effect heffect id)
  bounded id r hr := by
    rw [Planned.seen_after] at hr ⊢
    exact bounded_effect hown hfown htags hneeds hfence hplan heffect hr
  started id r hr hstarted := by
    rw [Planned.seen_after] at hr
    exact started_effect hown hplan heffect hr hstarted
  claimed wanted owner leaseSeconds pick catalogError r hcall hr := by
    rw [Planned.seen_after]
    exact claimed_effect hown hfown htags hneeds hfence hplan heffect hcall hr

end Exec

/-! ## Commits of others -/

section Commit

variable {env : Env} {db : Db} {done done' : List Sql} {t u : DeletionTx}

theorem known_commit (ht : Own env db done t) (hft : WriteFence.Own env db done t)
    (hfu : WriteFence.Own env db done' u) (hlt : (store env).Locked t)
    (hlu : (store env).Locked u) (hfit : conflict t.held u.held = false) {k : Sql}
    (hk : k ∈ done') (h : Known env db u k) : Known env ((store env).seen db t) u k := by
  have hrequest {id : Uuid} (hlock : (Lock.requestRow id, Mode.exclusive) ∈ u.held) :
      ((store env).seen db t).requests.get? id = db.requests.get? id :=
    (requestRow env id).read_spared (spared_of_held hlt hfit hlock)
  have hcommunity {c : CommunityId} (hlock : (Lock.communityRow c, Mode.exclusive) ∈ u.held) :
      ((store env).seen db t).communities.get? c = db.communities.get? c :=
    (communityRow env c).read_spared (spared_of_held hlt hfit hlock)
  have hseen {c : CommunityId} (hlock : (Lock.communityRow c, Mode.exclusive) ∈ u.held) :
      seenCommunity ((store env).seen db t) u c = seenCommunity db u c := by
    have hview := (communityRow env c).read_view
    show (view (store env).system ((store env).seen db t) u.writes).communities.get? _ =
      (view (store env).system db u.writes).communities.get? _
    rw [hview _ u.writes, hview db u.writes, hcommunity hlock]
  have htoken {token : LeaseToken} (hrow : TokenRow db token) :
      TokenRow ((store env).seen db t) token := by
    obtain ⟨r, hr, htarget⟩ := hrow
    obtain ⟨r', hr', hsame, -⟩ := ht.stays _ r hr
    exact ⟨r', hr', hsame.trans htarget⟩
  cases k with
  | check c =>
    cases c with
    | lease token stage => exact htoken h
    | leaseAndFence token stage => exact ⟨htoken h.1, fun g hg => (h.2 g hg).later (hft.later _)⟩
    | _ => trivial
  | read r =>
    cases r with
    | community target next =>
      obtain ⟨hlock, row, hrow, harchived⟩ := h
      exact ⟨hlock, row, (hcommunity hlock).trans hrow, harchived⟩
    | requestCommunity id =>
      obtain ⟨r, hr, htarget⟩ := h
      obtain ⟨r', hr', hsame, -⟩ := ht.stays _ r hr
      exact ⟨r', hr', hsame.trans htarget⟩
    | abortRow id =>
      obtain ⟨hlock, r, hr, hvars, htarget⟩ := h
      exact ⟨hlock, r, (hrequest hlock).trans hr, hvars, htarget⟩
    | _ => trivial
  | request id update e =>
    cases update with
    | noteQuiescing =>
      obtain ⟨r, hr, hstarted, hcaptured⟩ := h
      rcases (requestRow env id).seen_cases hlt hlu hfit with ⟨hsame, hview⟩ | ⟨hsame, hview⟩
      · exact ⟨r, hview.trans hr, hstarted, fun r₀ hr₀ => hcaptured r₀ (hsame.symm.trans hr₀)⟩
      · obtain ⟨r', hr', -, hkeeps⟩ := ht.stays id r (hsame.symm.trans hr)
        refine ⟨r', hview.trans hr', (hkeeps hstarted).1, ?_⟩
        intro r₀ hr₀ hnot
        cases hr'.symm.trans hr₀
        have hstarted' := (hkeeps hstarted).1
        rw [hnot] at hstarted'
        cases hstarted'
    | _ => trivial
  | community target update =>
    cases update with
    | fence =>
      obtain ⟨hlock, -⟩ := hfu.known _ hk (by simp [CommunityUpdate.missing])
      obtain ⟨row, hrow, hgen⟩ := h
      exact ⟨row, (hseen hlock).trans hrow, hgen⟩
    | restore =>
      obtain ⟨hlock, -⟩ := hfu.known _ hk (by simp [CommunityUpdate.missing])
      obtain ⟨row, hrow, hdeleted, hview⟩ := h
      exact ⟨row, (hcommunity hlock).trans hrow, hdeleted, (hseen hlock).trans hview⟩
    | _ => trivial
  | _ => trivial

theorem own_commit (ht : Own env db done t) (hft : WriteFence.Own env db done t)
    (hu : Own env db done' u) (hfu : WriteFence.Own env db done' u) (hlt : (store env).Locked t)
    (hlu : (store env).Locked u) (hfit : conflict t.held u.held = false) :
    Own env ((store env).seen db t) done' u := by
  have hreached {c : CommunityId} {g : Nat} (h : Reached ((store env).seen db u) c g) :
      Reached ((store env).seen ((store env).seen db t) u) c g :=
    h.later ((communityRow env c).related_seen (Later.refl _) hlt hlu hfit (hft.later c))
  have hafter := WriteFence.own_commit hft hfu hlt hlu hfit
  exact {
    known := fun k hk => known_commit ht hft hfu hlt hlu hfit hk (hu.known k hk)
    stays := fun id => (requestRow env id).related_commit Stays.refl hlt hlu hfit (hu.stays id)
    bounded := by
      intro id r hr
      rcases (requestRow env id).seen_cases hlt hlu hfit with ⟨-, hview⟩ | ⟨-, hview⟩
      · exact fun g hg => hreached (hu.bounded id r (hview.symm.trans hr) g hg)
      · exact fun g hg => (ht.bounded id r (hview.symm.trans hr) g hg).later (hafter.later _)
    started := by
      intro id r hr hstarted
      rcases (requestRow env id).seen_cases hlt hlu hfit with ⟨hsame, hview⟩ | ⟨-, hview⟩
      · rw [hsame]
        exact hu.started id r (hview.symm.trans hr) hstarted
      · exact .inl ⟨r, hview.symm.trans hr, hstarted⟩
    claimed := fun wanted owner leaseSeconds pick catalogError r hcall hr g hg =>
      hreached (hu.claimed wanted owner leaseSeconds pick catalogError r hcall hr g hg) }

end Commit

/-! ## The rule -/

/-- No `begin_quiescing` of the request has committed. -/
def NeverQuiesced (answers : List (Call × Except DbError Vars)) (id : Uuid) : Prop :=
  ∀ token vars, (.beginQuiescing token, .ok vars) ∈ answers → token.requestId ≠ id

structure Inv (p : DeletionPublic) : Prop where
  bounded : ∀ id r, p.db.requests.get? id = some r → Bounded p.db r
  started : ∀ id r, p.db.requests.get? id = some r → NeverQuiesced p.answers id →
    r.quiescingStartedAt = none
  claimed : ∀ wanted owner leaseSeconds pick catalogError vars r,
    (.claim wanted owner leaseSeconds pick catalogError, .ok vars) ∈ p.answers →
      vars.returned = some r → Bounded p.db r
  fenced : ∀ token vars, (.fence token, .ok vars) ∈ p.answers →
    Reached p.db token.communityId vars.generation
  renewed : ∀ handle leaseSeconds vars,
    (.renewServingWriteLease handle leaseSeconds, .ok vars) ∈ p.answers →
      Reached p.db handle.communityId handle.fenceGeneration

variable {p : DeletionPublic}

theorem mem_refuse {call' : Call} {error : DbError} {vars : Vars}
    (h : (call', .ok vars) ∈ (p.refuse call error).answers) : (call', .ok vars) ∈ p.answers := by
  rcases List.mem_append.mp h with hold | hnew
  · exact hold
  · rw [List.mem_singleton] at hnew
    cases (Prod.mk.inj hnew).2

theorem mem_commit {env : Env} {t : DeletionTx} {vars : Vars}
    (h : (call, .ok vars) ∈ (p.commit (store env).system t).answers) :
    (call, .ok vars) ∈ p.answers ∨ (call = t.call ∧ vars = t.vars) := by
  rcases List.mem_append.mp h with hold | hnew
  · exact .inl hold
  · rw [List.mem_singleton] at hnew
    obtain ⟨hcall, hvars⟩ := Prod.mk.inj hnew
    exact .inr ⟨hcall, Except.ok.inj hvars⟩

theorem own_fresh {env : Env} (h : Inv p) (call : Call) :
    Own env p.db [] (fresh (store env).system call p.clock) where
  known stmt hstmt := absurd hstmt List.not_mem_nil
  stays id := Stays.refl _
  bounded := h.bounded
  started id r hr hstarted := .inl ⟨r, hr, hstarted⟩
  claimed _ _ _ _ _ r _ hr := by cases hr

theorem inv_commit {env : Env} {t : DeletionTx} (hinv : Inv p) (hown : Own env p.db t.call.plan t)
    (hfence : WriteFence.Own env p.db t.call.plan t) : Inv (p.commit (store env).system t) where
  bounded := hown.bounded
  started id r hr hnever := by
    by_contra hstarted
    rcases hown.started id r hr (Option.isSome_iff_ne_none.mpr hstarted) with
      ⟨r₀, hr₀, hbefore⟩ | ⟨token, hcall, htoken⟩
    · have hnone := hinv.started id r₀ hr₀ fun token vars hmem =>
        hnever token vars (List.mem_append_left _ hmem)
      rw [hnone] at hbefore
      cases hbefore
    · refine hnever token t.vars ?_ htoken
      rw [← hcall]
      exact List.mem_append_right _ List.mem_cons_self
  claimed wanted owner leaseSeconds pick catalogError vars r hmem hr := by
    rcases mem_commit hmem with hold | ⟨hcall, rfl⟩
    · intro g hg
      exact (hinv.claimed wanted owner leaseSeconds pick catalogError vars r hold hr g hg).later
        (hfence.later _)
    · exact hown.claimed wanted owner leaseSeconds pick catalogError r hcall.symm hr
  fenced token vars hmem := by
    rcases mem_commit hmem with hold | ⟨hcall, rfl⟩
    · exact (hinv.fenced token vars hold).later (hfence.later _)
    · obtain ⟨row, hrow, hgen⟩ := hown.known (.community (.known token.communityId) .fence)
        (by simp [← hcall, Call.plan])
      exact ⟨row, hrow, hgen.ge⟩
  renewed handle leaseSeconds vars hmem := by
    rcases mem_commit hmem with hold | ⟨hcall, rfl⟩
    · exact (hinv.renewed handle leaseSeconds vars hold).later (hfence.later _)
    · obtain ⟨-, row, hrow, -, hgen⟩ := hfence.known (.renewLease handle leaseSeconds)
        (by simp [← hcall, Call.plan])
      exact Reached.later ⟨row, hrow, hgen.ge⟩ (hfence.later _)

theorem abortRule (env : Env) :
    PlanRule (store env) .any (fun p => True ∧ True ∧ WriteFence.Inv p)
      (fun db done t => True ∧ Tagged db done t ∧ WriteFence.Own env db done t) Inv (Own env) where
  advance _ _ h := ⟨h.bounded, h.started, h.claimed, h.fenced, h.renewed⟩
  refuse p call error h :=
    { bounded := h.bounded
      started := fun id r hr hnever => h.started id r hr fun token vars hmem =>
        hnever token vars (List.mem_append_left _ hmem)
      claimed := fun wanted owner leaseSeconds pick catalogError vars r hmem hr =>
        h.claimed wanted owner leaseSeconds pick catalogError vars r (mem_refuse hmem) hr
      fenced := fun token vars hmem => h.fenced token vars (mem_refuse hmem)
      renewed := fun handle leaseSeconds vars hmem =>
        h.renewed handle leaseSeconds vars (mem_refuse hmem) }
  begin p call h := own_fresh h call
  exec p done stmt todo t vars ws _ _ hgiven hown hplan _ hexec := by
    have hordered : Ordered Needs [] (done ++ stmt :: todo) := by
      rw [← hplan]
      exact plan_ordered t.call
    have hfence : Ordered WriteFence.Needs [] (done ++ stmt :: todo) := by
      rw [← hplan]
      exact WriteFence.plan_ordered t.call
    have hmem : stmt ∈ t.call.plan := by
      show stmt ∈ (store env).plan t.call
      rw [hplan]
      simp
    exact own_exec hown hgiven.2.2 hgiven.2.1 (needs_of_ordered hordered) (needs_of_ordered hfence)
      hmem (effect_of_exec hexec)
  commit p t _ hinv hgiven hown _ _ _ := inv_commit hinv hown hgiven.2.2
  ownCommit p t u done _ _ hgt ht hgu hu hlt hlu hfit _ :=
    own_commit ht hgt.2.2 hu hgu.2.2 hlt hlu hfit

/-! ## Whole runs -/

abbrev AbortKept (env : Env) (s : DeletionWorld) : Prop :=
  Kept (fun p => (True ∧ WriteFence.Inv p) ∧ Inv p)
    (Open (store env) fun db done t =>
      (Tagged db done t ∧ WriteFence.Own env db done t) ∧ Own env db done t) s

theorem rule (env : Env) : Rule (store env).system .any (fun p => (True ∧ WriteFence.Inv p) ∧ Inv p)
    (Open (store env) fun db done t =>
      (Tagged db done t ∧ WriteFence.Own env db done t) ∧ Own env db done t) :=
  (((taggedRule env).and (fenceRule env)).and (abortRule env)).always (disciplined env)

theorem kept_of_fresh {env : Env} {clock : Int} {db : Db} (hdb : db.Fresh) :
    AbortKept env (World.init clock db) := by
  have hfence : WriteFence.FenceKept env (World.init clock db) := WriteFence.kept_of_fresh hdb
  refine kept_init clock ⟨hfence.inv, ?_⟩
  refine ⟨?_, ?_, ?_, ?_, ?_⟩
  · intro id r hr
    rw [hdb.requests] at hr
    cases hr
  · intro id r hr
    rw [hdb.requests] at hr
    cases hr
  · intro _ _ _ _ _ _ _ hmem
    cases hmem
  · intro _ _ hmem
    cases hmem
  · intro _ _ _ hmem
    cases hmem

structure Committed (env : Env) (s : DeletionWorld) (t : DeletionTx) (s' : DeletionWorld) :
    Prop where
  pub : s'.pub = s.pub.commit (store env).system t
  fence : WriteFence.Own env s.pub.db t.call.plan t
  own : Own env s.pub.db t.call.plan t

variable {s s' : DeletionWorld}

theorem committed_of_step {env : Env} {i : Nat} {t : DeletionTx} (hs : AbortKept env s)
    (hopen : s.txs.get? i = some t) (hstep : step (store env).system s (.commit i) = some s') :
    Committed env s t s' := by
  obtain ⟨t', hopen', hrest, hpub⟩ := step_commit hstep
  cases hopen.symm.trans hopen'
  obtain ⟨-, -, ⟨-, hfence⟩, hown⟩ := (hs.own i t hopen).finished hrest
  exact ⟨hpub, hfence, hown⟩

theorem stays_step {env : Env} {a : Action Call DbError} (hs : AbortKept env s)
    (hstep : step (store env).system s a = some s') (id : Uuid) :
    Stays (s.pub.db.requests.get? id) (s'.pub.db.requests.get? id) := by
  cases a with
  | commit i =>
    obtain ⟨t, hopen, -, hpub⟩ := step_commit hstep
    rw [hpub]
    exact (committed_of_step hs hopen hstep).own.stays id
  | _ =>
    rw [step_db hstep (by simp)]
    exact Stays.refl _

theorem stays_run {env : Env} {as : List (Action Call DbError)} (hs : AbortKept env s)
    (hrun : run (step (store env).system) s as = some s') (id : Uuid) :
    Stays (s.pub.db.requests.get? id) (s'.pub.db.requests.get? id) := by
  have hboth : AbortKept env s' ∧ Stays (s.pub.db.requests.get? id) (s'.pub.db.requests.get? id) := by
    refine run_invariant (fun x => AbortKept env x ∧ Stays _ (x.pub.db.requests.get? id)) ?_
      ⟨hs, Stays.refl _⟩ hrun
    rintro x a y ⟨hx, hstays⟩ hstep
    exact ⟨(step_cases hstep).kept (rule env) (Guard.any_allows _ _) hx,
      hstays.trans (stays_step hx hstep id)⟩
  exact hboth.2

inductive Carried (s : DeletionWorld) (c : CommunityId) (g : Nat) : Prop
  | leaseRow (id : Uuid) (row : ServingLease) (hrow : s.pub.db.leases.get? id = some row)
      (hcommunity : row.communityId = c) (hg : row.fenceGeneration = g)
  | granted (handle : ServingWriteLease) (hgranted : Granted s handle)
      (hcommunity : handle.communityId = c) (hg : handle.fenceGeneration = g)
  | renewed (handle : ServingWriteLease) (leaseSeconds : Nat) (vars : Vars)
      (hrenewed : (.renewServingWriteLease handle leaseSeconds, .ok vars) ∈ s.pub.answers)
      (hcommunity : handle.communityId = c) (hg : handle.fenceGeneration = g)
  | requestRow (id : Uuid) (r : Request) (hr : s.pub.db.requests.get? id = some r)
      (hcommunity : r.communityId = c) (hg : r.fenceGeneration = some g)
  | claimed (wanted : Option Uuid) (owner : String) (leaseSeconds : Nat) (pick : Option Uuid)
      (catalogError : Option String) (vars : Vars) (r : Request)
      (hclaimed : (.claim wanted owner leaseSeconds pick catalogError, .ok vars) ∈ s.pub.answers)
      (hr : vars.returned = some r) (hcommunity : r.communityId = c)
      (hg : r.fenceGeneration = some g)
  | fenced (token : LeaseToken) (vars : Vars) (hfenced : (.fence token, .ok vars) ∈ s.pub.answers)
      (hcommunity : token.communityId = c) (hg : vars.generation = g)

theorem reached_of_past {db : Db} (h : Past db c g) : Reached db c g := by
  obtain ⟨row, hrow, hle, -⟩ := h
  exact ⟨row, hrow, hle⟩

theorem reached_of_carried {env : Env} (hs : AbortKept env s) (h : Carried s c g) :
    Reached s.pub.db c g := by
  obtain ⟨⟨-, hfence⟩, hinv⟩ := hs.inv
  cases h with
  | leaseRow id row hrow hcommunity hg =>
    subst hcommunity hg
    exact reached_of_past (hfence.leases id row hrow)
  | granted handle hgranted hcommunity hg =>
    subst hcommunity hg
    obtain ⟨id, c, operation, owner, leaseSeconds, vars, hanswer, hlease⟩ := hgranted
    exact reached_of_past (hfence.granted id c operation owner leaseSeconds vars handle hanswer hlease)
  | renewed handle leaseSeconds vars hrenewed hcommunity hg =>
    subst hcommunity hg
    exact hinv.renewed handle leaseSeconds vars hrenewed
  | requestRow id r hr hcommunity hg =>
    subst hcommunity
    exact hinv.bounded id r hr g hg
  | claimed wanted owner leaseSeconds pick catalogError vars r hclaimed hr hcommunity hg =>
    subst hcommunity
    exact hinv.claimed wanted owner leaseSeconds pick catalogError vars r hclaimed hr g hg
  | fenced token vars hfenced hcommunity hg =>
    subst hcommunity hg
    exact hinv.fenced token vars hfenced

theorem restored_of_abort {env : Env} {t : DeletionTx} {id : Uuid} {who why : String}
    (ht : Committed env s t s') (hcall : t.call = .abort id who why) :
    ∃ r row, s.pub.db.requests.get? id = some r ∧
      s.pub.db.communities.get? r.communityId = some row ∧ row.deletedAt = none ∧
      s'.pub.db.communities.get? r.communityId = some { row with
        state := .active
        generation := row.generation + 1
        archivedAt :=
          if r.quiescingStartedAt.isSome then r.preQuiesceArchivedAt else row.archivedAt } := by
  have hin (stmt : Sql) (h : stmt ∈ abortPlan id (trimText who) (trimText why)) :
      stmt ∈ t.call.plan := by
    rw [hcall]
    exact h
  obtain ⟨-, r, hr, hvars, htarget⟩ := ht.own.known (.read (.abortRow id)) (hin _ (by simp [abortPlan]))
  obtain ⟨-, row, hrow, harchived⟩ :=
    ht.own.known (.read (.community .ofRequest true)) (hin _ (by simp [abortPlan]))
  obtain ⟨-, row', hrow', hgen⟩ :=
    ht.fence.known (.read (.community .ofRequest true)) (hin _ (by simp [abortPlan]))
  obtain ⟨row'', hrow'', hdeleted, hseen⟩ :=
    ht.own.known (.community .ofRequest .restore) (hin _ (by simp [abortPlan]))
  simp only [Target.of] at hrow hrow' hrow'' hseen
  cases hrow.symm.trans hrow'
  cases hrow.symm.trans hrow''
  refine ⟨r, row, hr, by rw [htarget]; exact hrow, hdeleted, ?_⟩
  rw [ht.pub, htarget]
  refine hseen.trans ?_
  simp only [CommunityUpdate.restoredArchivedAt, hvars, hgen, harchived, if_true]

theorem captured_of_quiesce {env : Env} {t : DeletionTx} (hs : AbortKept env s)
    (ht : Committed env s t s') (hcall : t.call = .beginQuiescing token)
    (hnever : NeverQuiesced s.pub.answers token.requestId) :
    ∃ r row, s.pub.db.communities.get? r.communityId = some row ∧
      s'.pub.db.requests.get? token.requestId = some r ∧ r.quiescingStartedAt.isSome ∧
      r.preQuiesceArchivedAt = row.archivedAt := by
  have hin (stmt : Sql) (h : stmt ∈ (Call.beginQuiescing token).plan) : stmt ∈ t.call.plan := by
    rw [hcall]
    exact h
  obtain ⟨r₀, hr₀, htarget⟩ :=
    ht.own.known (.check (.lease token .approved)) (hin _ (by simp [Call.plan]))
  obtain ⟨-, row, hrow, harchived⟩ := ht.own.known
    (.read (.community (.known token.communityId) false)) (hin _ (by simp [Call.plan]))
  obtain ⟨r, hr, hstarted, hcaptured⟩ :=
    ht.own.known (.request token.requestId .noteQuiescing none) (hin _ (by simp [Call.plan]))
  have hcommunity : r.communityId = token.communityId :=
    (community_of_seen ht.own hr₀ hr).trans htarget
  refine ⟨r, row, by rw [hcommunity]; exact hrow, by rw [ht.pub]; exact hr, hstarted, ?_⟩
  exact (hcaptured r₀ hr₀ (hs.inv.2.started _ r₀ hr₀ hnever)).trans harchived

/-- An abort restores the community: it is active and not deleted, its `archived_at` is what it was
right before the first `begin_quiescing` of the request committed, or unchanged if there was none,
and its fence generation is above every one that a lease or a token of it carries. Whatever does
not commit changes nothing, and what commits has not failed. -/
theorem abort_restores {env : Env} {db : Db} (hdb : db.Fresh) {clock : Int}
    {as : List (Action Call DbError)} {s : DeletionWorld}
    (hrun : run (step (store env).system) (.init clock db) as = some s) :
    (∀ i t s' id who why, s.txs.get? i = some t → t.call = .abort id who why →
      step (store env).system s (.commit i) = some s' →
        ∃ r before after, s.pub.db.requests.get? id = some r ∧
          s.pub.db.communities.get? r.communityId = some before ∧
          s'.pub.db.communities.get? r.communityId = some after ∧
          after.state = .active ∧ after.deletedAt = none ∧
          (NeverQuiesced s.pub.answers id → after.archivedAt = before.archivedAt) ∧
          (∀ as₁ j as₂ x u token, as = as₁ ++ Action.commit j :: as₂ →
            run (step (store env).system) (.init clock db) as₁ = some x →
            x.txs.get? j = some u → u.call = .beginQuiescing token → token.requestId = id →
            NeverQuiesced x.pub.answers id →
              ∃ row, x.pub.db.communities.get? r.communityId = some row ∧
                after.archivedAt = row.archivedAt) ∧
          ∀ g, Carried s r.communityId g → g < after.generation) ∧
    ∀ a s', step (store env).system s a = some s' → s'.pub.db = s.pub.db ∨
      ∃ i t, a = .commit i ∧ s.txs.get? i = some t ∧
        s'.pub.answers = s.pub.answers ++ [(t.call, Except.ok t.vars)] := by
  have hs : AbortKept env s := run_keeps (rule env) (kept_of_fresh hdb) hrun
  constructor
  · intro i t s' id who why hopen hcall hstep
    obtain ⟨r, row, hr, hrow, hdeleted, hafter⟩ :=
      restored_of_abort (committed_of_step hs hopen hstep) hcall
    refine ⟨r, row, _, hr, hrow, hafter, rfl, hdeleted, ?_, ?_, ?_⟩
    · intro hnever
      rw [hs.inv.2.started id r hr hnever]
      rfl
    · intro as₁ j as₂ x u token has hbefore hopen' hquiesce htoken hnever
      subst htoken
      rw [has] at hrun
      obtain ⟨x₁, hx₁, hrest⟩ := run_append_some.mp hrun
      cases hbefore.symm.trans hx₁
      obtain ⟨x', hstep', hrest⟩ := run_cons_some.mp hrest
      have hx : AbortKept env x := run_keeps (rule env) (kept_of_fresh hdb) hbefore
      obtain ⟨r', row', hrow', hr', hstarted, hcaptured⟩ :=
        captured_of_quiesce hx (committed_of_step hx hopen' hstep') hquiesce hnever
      -- The request keeps what was captured until the abort reads it.
      have hx' := (step_cases hstep').kept (rule env) (Guard.any_allows _ _) hx
      obtain ⟨r'', hr'', hcommunity, hkeeps⟩ := stays_run hx' hrest token.requestId r' hr'
      cases hr.symm.trans hr''
      refine ⟨row', by rw [hcommunity]; exact hrow', ?_⟩
      show (if r.quiescingStartedAt.isSome then _ else _) = _
      rw [if_pos (hkeeps hstarted).1, (hkeeps hstarted).2, hcaptured]
    · intro g hcarried
      obtain ⟨row', hrow', hle⟩ := reached_of_carried hs hcarried
      cases hrow.symm.trans hrow'
      exact Nat.lt_succ_of_le hle
  · intro a s' hstep
    cases a with
    | commit i =>
      obtain ⟨t, hopen, -, hpub⟩ := step_commit hstep
      exact .inr ⟨i, t, rfl, hopen, by rw [hpub]; rfl⟩
    | _ => exact .inl (step_db hstep (by simp))

/-! ## A deletion that is taken over and aborted -/

def takenOver : LeaseToken := { demoToken with owner := "successor", generation := 2 }

/-- The first `begin_quiescing` is about to commit. -/
def untilQuiesced : List (Action Call DbError) :=
  whole 0 (.submit 2 "a.example" "operator" none) ++ whole 1 (.freezeInventory 2 demoInventory) ++
  whole 2 (.approve 2 "operator" none) ++ whole 3 (.claim none "executor" 1 (some 2) none) ++
  statements 4 (.beginQuiescing demoToken)

def untilAborted : List (Action Call DbError) :=
  [Action.advance 2000000] ++ whole 5 (.claim none "successor" 1000 (some 2) none) ++
  whole 6 (.beginQuiescing takenOver) ++ whole 7 (.fence takenOver) ++
  statements 8 (.abort 2 "operator" "mistake")

def quiesced : Call × Except DbError Vars → Bool
  | (.beginQuiescing _, .ok _) => true
  | _ => false

theorem abort_restores_after_takeover :
    ∃ x s s' row after,
      run (step (store WriteFence.demoEnv).system) (.init 0 demoDb) untilQuiesced = some x ∧
      run (step (store WriteFence.demoEnv).system) (.init 0 demoDb)
        (untilQuiesced ++ Action.commit 4 :: untilAborted) = some s ∧
      step (store WriteFence.demoEnv).system s (.commit 8) = some s' ∧
      x.pub.db.communities.get? 1 = some row ∧ s'.pub.db.communities.get? 1 = some after ∧
      after.state = .active ∧ after.archivedAt = row.archivedAt ∧ Carried s 1 1 ∧
      1 < after.generation := by
  have hrun : ((run (step (store WriteFence.demoEnv).system) (.init 0 demoDb) untilQuiesced).any fun x =>
      ((x.txs.get? 4).any fun u => decide (u.call = .beginQuiescing demoToken)) &&
      (x.pub.answers.all fun answer => !quiesced answer) &&
      (run (step (store WriteFence.demoEnv).system) (.init 0 demoDb)
        (untilQuiesced ++ Action.commit 4 :: untilAborted)).any fun s =>
      ((s.txs.get? 8).any fun t => decide (t.call = .abort 2 "operator" "mistake")) &&
      ((s.pub.db.requests.get? 2).any fun r =>
        r.communityId == 1 && r.fenceGeneration == some 1) &&
      (step (store WriteFence.demoEnv).system s (.commit 8)).isSome) = true := by
    decide +kernel
  simp only [Option.any_eq_true, Bool.and_eq_true, decide_eq_true_eq, Option.isSome_iff_exists,
    List.all_eq_true, beq_iff_eq] at hrun
  obtain ⟨x, hx, ⟨⟨u, hu, hquiesce⟩, hfirst⟩, s, hs, ⟨⟨t, ht, habort⟩, r₀, hr₀, hcommunity,
    hfenced⟩, s', hstep⟩ := hrun
  have hnever : NeverQuiesced x.pub.answers 2 := by
    intro token vars hmem
    have hanswer := hfirst _ hmem
    cases hanswer
  have hfresh : demoDb.Fresh := ⟨rfl, rfl, rfl, rfl⟩
  obtain ⟨r, before, after, hr, -, hafter, hactive, -, -, hquiesced, hgeneration⟩ :=
    (abort_restores hfresh hs).1 8 t s' 2 _ _ ht habort hstep
  cases hr.symm.trans hr₀
  rw [hcommunity] at hafter hquiesced hgeneration
  obtain ⟨row, hrow, harchived⟩ :=
    hquiesced untilQuiesced 4 untilAborted x u demoToken rfl hx hu hquiesce rfl hnever
  have hcarried : Carried s 1 1 := .requestRow 2 r₀ hr₀ hcommunity hfenced
  exact ⟨x, s, s', row, after, hx, hs, hstep, hrow, hafter, hactive, harchived, hcarried,
    hgeneration 1 hcarried⟩

end Vingilot.Deletion.Abort
