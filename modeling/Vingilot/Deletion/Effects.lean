import Vingilot.Deletion.Calls
import Vingilot.Lib.Program

/-!
# What a statement can do

One constructor of `Effect` for each way a statement can go through. From here on no proof looks
into `Sql.exec` again.
-/

namespace Vingilot.Deletion

open Transactions

theorem require_ok {b : Bool} {error : DbError} : require b error = .ok () ↔ b = true := by
  unfold require
  split <;> simp_all

variable {α : Type}

theorem filter_eq_some {o : Option α} {p : α → Bool} {a : α} (h : o.filter p = some a) :
    o = some a ∧ p a = true := by
  cases o with
  | none => simp at h
  | some b =>
    simp only [Option.filter] at h
    split at h
    · cases h
      exact ⟨rfl, by assumption⟩
    · cases h

/-! ## Effects -/

inductive Effect (env : Env) (now : Int) (v : Vars) (db : Db) : Sql → Vars → List Write → Prop
  | isolation (readCommitted : Bool) :
      Effect env now v db (.isolation readCommitted) { v with readCommitted } []
  | lock (target : Target) (mode : Mode) : Effect env now v db (.lock target mode) v []
  | check {c : Check} (hrun : c.run env db now v = .ok ()) : Effect env now v db (.check c) v []
  | read {r : Read} {v' : Vars} (hrun : r.run env db now v = .ok v') :
      Effect env now v db (.read r) v' []
  | setExecutor (target : Target) (generation : Generation) :
      Effect env now v db (.setExecutor target generation)
        { v with executor := (generation.of v).map fun g => (target.of v, g) } []
  | setServing (handle : ServingWriteLease) :
      Effect env now v db (.setServing handle) { v with serving := some handle } []
  | assertTarget (hassert : assertAll db now v v.targets.head?.toList = .ok ()) :
      Effect env now v db .assertTarget { v with targets := v.targets.tail } []
  | writeNothing (hchange : v.change = none) :
      Effect env now v db .writeRow { v with targets := [] } []
  | writeRow {change : RowChange} (hassert : assertAll db now v v.targets = .ok ())
      (hchange : v.change = some change) :
      Effect env now v db .writeRow { v with targets := [], change := none }
        [.tenant change.key change.old change.new]
  | request {id : Uuid} {u : RequestUpdate} {missing : Option DbError} {r : Request}
      (hget : db.requests.get? id = some r) (happlies : u.applies db now v id r = true)
      (hguard : preventRetargeting r (u.set env now v r) = .ok ()) :
      Effect env now v db (.request id u missing) { v with returned := some (u.set env now v r) }
        [.request id (u.set env now v r)]
  | noRequest {id : Uuid} {u : RequestUpdate}
      (hnone : (db.requests.get? id).filter (u.applies db now v id) = none) :
      Effect env now v db (.request id u none) v []
  | community {target : Target} {u : CommunityUpdate} {c : Community}
      (hget : db.communities.get? (target.of v) = some c) (happlies : u.applies c = true)
      (hguard : enforceCommunityTombstone v (target.of v) c (u.set now v c) = .ok ()) :
      Effect env now v db (.community target u) v [.community (target.of v) (u.set now v c)]
  | noCommunity {target : Target} {u : CommunityUpdate} (hmissing : u.missing (target.of v) = none) :
      Effect env now v db (.community target u) v []
  | insertRequest {id : Uuid} {host requestedBy : String} {reason : Option String}
      {c : CommunityId} {communityHost : String} (htarget : v.target = some (c, communityHost))
      (hfree : db.hasActiveRequest c = false) (hnew : db.requests.get? id = none) :
      Effect env now v db (.insertRequest id host requestedBy reason)
        { v with returned := some (submittedRow now c communityHost requestedBy reason) }
        [.request id (submittedRow now c communityHost requestedBy reason)]
  | existingRequest (id : Uuid) (host requestedBy : String) (reason : Option String)
      (row : Request) :
      Effect env now v db (.insertRequest id host requestedBy reason)
        { v with returned := some row } []
  | insertApproval {id : Uuid} {approvedBy : String} {note : Option String} {r : Request}
      {digest : Digest} (hrequest : v.request = some r) (hdigest : r.inventoryDigest = some digest)
      (hnew : db.approvals.get? id = none) :
      Effect env now v db (.insertApproval id approvedBy note) v
        [.approval id ⟨r.communityId, digest, approvedBy, note⟩]
  | insertLease {id : Uuid} {community : CommunityId} {operation owner : String}
      {leaseSeconds : Nat} {c : Community} {leaseUntil : Int}
      (hget : db.communities.get? community = some c) (hactive : c.state = .active) :
      Effect env now v db (.insertLease id community operation owner leaseSeconds)
        { v with lease := some ⟨id, community, operation, owner, 1, c.generation, leaseUntil⟩ }
        [.lease id (some ⟨community, operation, owner, 1, c.generation, leaseUntil⟩)]
  | renewLease {handle : ServingWriteLease} {leaseSeconds : Nat} {row : ServingLease}
      {leaseUntil : Int} (hrow : leaseRow db handle (renewable db now) = some row) :
      Effect env now v db (.renewLease handle leaseSeconds)
        { v with lease := some { handle with leaseUntil } }
        [.lease handle.id (some { row with leaseUntil })]
  | releaseNothing (handle : ServingWriteLease) : Effect env now v db (.releaseLease handle) v []
  | releaseLease {handle : ServingWriteLease} {row : ServingLease}
      (hrow : leaseRow db handle (fun _ => true) = some row) :
      Effect env now v db (.releaseLease handle) v [.lease handle.id none]
  | reapLeases (ids : List Uuid) :
      Effect env now v db (.reapLeases ids) v
        ((expiredLeases db now ids).map fun id => .lease id none)
  | deleteRows {table : TableName} {c : CommunityId}
      (hassert : assertAll db now v
        (if (v.rowsLeft db table c).isEmpty || !table.fenced then [] else [c]) = .ok ()) :
      Effect env now v db (.deleteRows table c) v
        ((v.rowsLeft db table c).map fun x => .tenant x.1 (some x.2) none)
  | clearProvenance (table : TableName) (c : CommunityId) :
      Effect env now v db (.clearProvenance table c) v
        ((v.rowsLeft db table c).map fun x =>
          .tenant x.1 (some x.2) (some { x.2 with communityId := none }))
  | insertChunk {id : Uuid} {no : Int} {keyPrefix : String} {keys : List String}
      (hmay : mayInsertChunk db id = true) (hnew : db.chunks.get? (id, no) = none) :
      Effect env now v db (.insertChunk id no keyPrefix keys) v
        [.chunk id no (some ⟨keyPrefix, keys, none⟩)]
  | deleteChunks {id : Uuid}
      (hmay : (v.chunksLeft db id).isEmpty = true ∨ mayDeleteChunk db id = true) :
      Effect env now v db (.deleteChunks id) v
        ((v.chunksLeft db id).map fun no => .chunk id no none)
  | stampChunk {id : Uuid} {no : Int} {error : DbError} {chunk : Chunk}
      (hpending : pendingChunk db id no = some chunk) :
      Effect env now v db (.stampChunk id no error) v
        [.chunk id no (some { chunk with deletedAt := some now })]

variable {stmt : Sql} {now : Int} {v v' : Vars} {db : Db} {ws : List Write}

theorem effect_of_exec {env : Env} (h : stmt.exec env now v db = .ok (v', ws)) :
    Effect env now v db stmt v' ws := by
  cases stmt with
  | isolation readCommitted => cases h; exact .isolation readCommitted
  | lock target mode => cases h; exact .lock target mode
  | check c =>
    obtain ⟨_, hrun, h⟩ := Program.exceptBind_ok.mp h
    cases h
    exact .check hrun
  | read r =>
    obtain ⟨_, hrun, h⟩ := Program.exceptBind_ok.mp h
    cases h
    exact .read hrun
  | setExecutor target generation => cases h; exact .setExecutor target generation
  | setServing handle => cases h; exact .setServing handle
  | assertTarget =>
    obtain ⟨_, hassert, h⟩ := Program.exceptBind_ok.mp h
    cases h
    exact .assertTarget hassert
  | writeRow =>
    obtain ⟨_, hassert, h⟩ := Program.exceptBind_ok.mp h
    split at h
    · cases h; exact .writeNothing (by assumption)
    · split at h
      · cases h
      · cases h; exact .writeRow hassert (by assumption)
  | request id u missing =>
    simp only [Sql.exec] at h
    split at h
    · rename_i r hfound
      obtain ⟨hget, happlies⟩ := filter_eq_some hfound
      obtain ⟨_, hguard, h⟩ := Program.exceptBind_ok.mp h
      obtain ⟨_, -, h⟩ := Program.exceptBind_ok.mp h
      cases h
      exact .request hget happlies hguard
    · split at h
      · cases h
      · cases h; exact .noRequest (by assumption)
  | community target u =>
    simp only [Sql.exec] at h
    split at h
    · rename_i c hfound
      obtain ⟨hget, happlies⟩ := filter_eq_some hfound
      obtain ⟨_, hguard, h⟩ := Program.exceptBind_ok.mp h
      cases h
      exact .community hget happlies hguard
    · split at h
      · cases h
      · cases h; exact .noCommunity (by assumption)
  | insertRequest id host requestedBy reason =>
    simp only [Sql.exec] at h
    split at h
    · cases h
    · rename_i c communityHost htarget
      split at h
      · split at h
        · rename_i row hrow
          cases h
          exact .existingRequest id host requestedBy reason row
        · cases h
      · rename_i hfree
        split at h
        · cases h
        · rename_i hnew
          cases h
          exact .insertRequest htarget (by simpa using hfree) (by simpa using hnew)
  | insertApproval id approvedBy note =>
    simp only [Sql.exec] at h
    split at h
    · rename_i r digest hrequest hdigest
      split at h
      · cases h
      · rename_i hnew
        cases h
        rw [hrequest] at hdigest
        exact .insertApproval hrequest hdigest (by simpa using hnew)
    · cases h
  | insertLease id c operation owner leaseSeconds =>
    simp only [Sql.exec] at h
    split at h
    · cases h
    · rename_i row hfound
      obtain ⟨hget, hactive⟩ := filter_eq_some hfound
      simp only [Bool.and_eq_true, beq_iff_eq] at hactive
      split at h
      · cases h
      · cases h
        exact .insertLease hget hactive.1
  | renewLease handle leaseSeconds =>
    simp only [Sql.exec] at h
    split at h
    · cases h
    · cases h; exact .renewLease (by assumption)
  | releaseLease handle =>
    simp only [Sql.exec] at h
    split at h
    · cases h; exact .releaseNothing handle
    · cases h; exact .releaseLease (by assumption)
  | reapLeases ids => cases h; exact .reapLeases ids
  | deleteRows table c =>
    obtain ⟨_, hassert, h⟩ := Program.exceptBind_ok.mp h
    cases h
    exact .deleteRows hassert
  | clearProvenance table c => cases h; exact .clearProvenance table c
  | insertChunk id no keyPrefix keys =>
    simp only [Sql.exec] at h
    split at h
    · cases h
    · rename_i hmay
      split at h
      · cases h
      · split at h
        · cases h
        · rename_i hnew
          cases h
          exact .insertChunk (by simpa using hmay) (by simpa using hnew)
  | deleteChunks id =>
    simp only [Sql.exec] at h
    split at h
    · rename_i hmay
      cases h
      exact .deleteChunks (by simpa using hmay)
    · cases h
  | stampChunk id no error =>
    simp only [Sql.exec] at h
    split at h
    · cases h
    · cases h; exact .stampChunk (by assumption)

/-! ## Effects of reads -/

/-- The communities whose fence the trigger reads. -/
def RowOp.targets (op : RowOp) (db : Db) : List CommunityId :=
  match op.change db with
  | some change => if change.key.1.fenced then fenceTargets change.old change.new else []
  | none => []

inductive ReadEffect (env : Env) (now : Int) (v : Vars) (db : Db) : Read → Vars → Prop
  | requestCommunity {id : Uuid} {r : Request} (hget : db.requests.get? id = some r) :
      ReadEffect env now v db (.requestCommunity id) { v with community := r.communityId }
  | abortRow {id : Uuid} {r : Request} (hget : db.requests.get? id = some r)
      (hstage : r.stage = .approved ∨ r.stage = .fenced) :
      ReadEffect env now v db (.abortRow id) { v with request := some r }
  | approvalRow {id : Uuid} {r : Request} (hget : db.requests.get? id = some r)
      (hstage : r.stage = .inventoried) :
      ReadEffect env now v db (.approvalRow id) { v with request := some r }
  | claimNothing (wanted : Option Uuid) (id : Uuid) :
      ReadEffect env now v db (.claimCandidate wanted id) v
  | claimCandidate {wanted : Option Uuid} {id : Uuid} {r : Request}
      (hget : db.requests.get? id = some r) (hclaimable : claimable db now wanted id r = true) :
      ReadEffect env now v db (.claimCandidate wanted id)
        { v with request := some r, candidate := some id }
  | lockRequest {id : Uuid} {r : Request} (hget : db.requests.get? id = some r) :
      ReadEffect env now v db (.lockRequest id) v
  | retryRow {id : Uuid} {r : Request} (hget : db.requests.get? id = some r) :
      ReadEffect env now v db (.retryRow id) { v with request := some r }
  | blockedRow {id : Uuid} {r : Request} (appNow : Int) (hget : db.requests.get? id = some r) :
      ReadEffect env now v db (.blockedRow id appNow) { v with request := some r }
  | preclaimRow {id : Uuid} {r : Request} (appNow : Int) (hget : db.requests.get? id = some r) :
      ReadEffect env now v db (.preclaimRow id appNow) { v with request := some r }
  | community {target : Target} {next : Bool} {c : Community}
      (hget : db.communities.get? (target.of v) = some c) :
      ReadEffect env now v db (.community target next)
        { v with
          generation := if next then c.generation + 1 else c.generation
          archivedAt := c.archivedAt }
  | oldRow (op : RowOp) :
      ReadEffect env now v db (.oldRow op)
        { v with change := op.change db, targets := op.targets db }
  | scanRows (table : TableName) (c : CommunityId) :
      ReadEffect env now v db (.scanRows table c) { v with scanned := db.rowsOf table c }
  | scanChunks (id : Uuid) :
      ReadEffect env now v db (.scanChunks id)
        { v with chunkNos := (db.chunksOf id).map Prod.fst }
  | nextPending (id : Uuid) :
      ReadEffect env now v db (.nextPending id)
        { v with chunk :=
          ((db.chunksOf id).find? fun x => x.2.deletedAt.isNone).map fun x =>
            ⟨x.1, x.2.keyPrefix, x.2.keys⟩ }
  | submitTarget (host requestedBy : String) (target : Option (CommunityId × String))
      (existing : Option Request) :
      ReadEffect env now v db (.submitTarget host requestedBy) { v with target, existing }

theorem readEffect_of_run {env : Env} {r : Read} (h : r.run env db now v = .ok v') :
    ReadEffect env now v db r v' := by
  cases r with
  | requestCommunity id =>
    simp only [Read.run, Read.request] at h
    split at h
    · cases h; exact .requestCommunity (by assumption)
    · cases h
  | abortRow id =>
    simp only [Read.run, Read.request] at h
    split at h
    · cases h
    · split at h
      · cases h
      · split at h
        · cases h; exact .abortRow (by assumption) (by assumption)
        · cases h
  | approvalRow id =>
    simp only [Read.run, Read.request] at h
    split at h
    · cases h
    · rename_i row hfound
      obtain ⟨hget, hfinds⟩ := filter_eq_some hfound
      simp only [Read.finds, Bool.and_eq_true, beq_iff_eq] at hfinds
      split at h
      · cases h
      · split at h
        · cases h; exact .approvalRow hget hfinds.1
        · cases h
  | claimCandidate wanted id =>
    simp only [Read.run, Read.request] at h
    split at h
    · cases h; exact .claimNothing wanted id
    · rename_i row hfound
      obtain ⟨hget, hfinds⟩ := filter_eq_some hfound
      cases h
      exact .claimCandidate hget hfinds
  | lockRequest id =>
    simp only [Read.run, Read.request] at h
    split at h
    · cases h
    · cases h; exact .lockRequest (by assumption)
  | retryRow id =>
    simp only [Read.run, Read.request] at h
    split at h
    · cases h
    · cases h; exact .retryRow (by assumption)
  | blockedRow id appNow =>
    simp only [Read.run, Read.request] at h
    split at h
    · cases h
    · rename_i row hfound
      obtain ⟨hget, -⟩ := filter_eq_some hfound
      split at h
      · cases h
      · split at h
        · cases h
        · cases h; exact .blockedRow appNow hget
  | preclaimRow id appNow =>
    simp only [Read.run, Read.request] at h
    split at h
    · cases h
    · split at h
      · cases h
      · split at h
        · cases h
        · cases h; exact .preclaimRow appNow (by assumption)
  | community target next =>
    simp only [Read.run] at h
    split at h
    · cases h
    · split at h
      · cases h
      · cases h; exact .community (by assumption)
  | oldRow op => cases h; exact .oldRow op
  | scanRows table c => cases h; exact .scanRows table c
  | scanChunks id => cases h; exact .scanChunks id
  | nextPending id => cases h; exact .nextPending id
  | submitTarget host requestedBy => cases h; exact .submitTarget host requestedBy _ _

/-! ## Every write is locked by its statement -/

theorem disciplined (env : Env) : (store env).Disciplined := by
  intro stmt now v db v' ws h w hw
  show (w.lock, Mode.exclusive) ∈ stmt.locks now v db
  cases effect_of_exec h with
  | writeRow hassert hchange =>
    rw [List.mem_singleton.mp hw]
    simp [Sql.locks, hchange, Write.lock]
  | request hget happlies hguard =>
    rw [List.mem_singleton.mp hw]
    simp only [Sql.locks, hget, Option.filter, happlies, if_true, Write.lock]
    split <;> simp
  | community hget happlies hguard =>
    rw [List.mem_singleton.mp hw]
    simp [Sql.locks, hget, happlies, Write.lock]
  | insertRequest htarget hfree hnew =>
    rw [List.mem_singleton.mp hw]
    simp [Sql.locks, htarget, hfree, Write.lock]
  | insertApproval hrequest hdigest hnew =>
    rw [List.mem_singleton.mp hw]
    simp [Sql.locks, Write.lock]
  | insertLease hget hactive =>
    rw [List.mem_singleton.mp hw]
    simp [Sql.locks, Write.lock]
  | renewLease hrow =>
    rw [List.mem_singleton.mp hw]
    simp [Sql.locks, hrow, Write.lock]
  | releaseLease hrow =>
    rw [List.mem_singleton.mp hw]
    simp [Sql.locks, hrow, Write.lock]
  | reapLeases ids =>
    obtain ⟨id, hid, rfl⟩ := List.mem_map.mp hw
    exact List.mem_map.mpr ⟨id, hid, rfl⟩
  | deleteRows hassert =>
    obtain ⟨x, hx, rfl⟩ := List.mem_map.mp hw
    exact List.mem_append_left _ (List.mem_map.mpr ⟨x, hx, rfl⟩)
  | clearProvenance table c =>
    obtain ⟨x, hx, rfl⟩ := List.mem_map.mp hw
    exact List.mem_map.mpr ⟨x, hx, rfl⟩
  | insertChunk hmay hnew =>
    rw [List.mem_singleton.mp hw]
    simp [Sql.locks, Write.lock]
  | deleteChunks hmay =>
    obtain ⟨no, hno, rfl⟩ := List.mem_map.mp hw
    simp only [Sql.locks]
    rw [if_neg (by simpa using List.ne_nil_of_mem hno)]
    exact List.mem_cons_of_mem _ (List.mem_map.mpr ⟨no, hno, rfl⟩)
  | stampChunk hpending =>
    rw [List.mem_singleton.mp hw]
    simp [Sql.locks, hpending, Write.lock]
  | _ => simp at hw

/-! ## Rows -/

section

variable (env : Env)

def communityRow (c : CommunityId) :
    Row (store env) (.communityRow c) fun db => db.communities.get? c where
  next x
    | .community id row => if c = id then some row else x
    | _ => x
  read_apply db w := by cases w <;> simp [store, Db.apply]
  next_other x w hne := by
    cases w with
    | community id row => exact if_neg fun heq => hne (by rw [heq]; rfl)
    | _ => rfl

def requestRow (id : Uuid) : Row (store env) (.requestRow id) fun db => db.requests.get? id where
  next x
    | .request id' row => if id = id' then some row else x
    | _ => x
  read_apply db w := by cases w <;> simp [store, Db.apply]
  next_other x w hne := by
    cases w with
    | request id' row => exact if_neg fun heq => hne (by rw [heq]; rfl)
    | _ => rfl

end

/-! ## Which table a statement writes -/

inductive Relation where
  | communities
  | requests
  | approvals
  | chunks
  | leases
  | tenants
deriving DecidableEq

def Write.relation : Write → Relation
  | community _ _ => .communities
  | request _ _ => .requests
  | approval _ _ => .approvals
  | chunk _ _ _ => .chunks
  | lease _ _ => .leases
  | tenant _ _ _ => .tenants

def Sql.relation : Sql → Option Relation
  | community _ _ => some .communities
  | request _ _ _ | insertRequest _ _ _ _ => some .requests
  | insertApproval _ _ _ => some .approvals
  | insertChunk _ _ _ _ | deleteChunks _ | stampChunk _ _ _ => some .chunks
  | insertLease _ _ _ _ _ | renewLease _ _ | releaseLease _ | reapLeases _ => some .leases
  | writeRow | deleteRows _ _ | clearProvenance _ _ => some .tenants
  | isolation _ | lock _ _ | check _ | read _ | setExecutor _ _ | setServing _ | assertTarget =>
    none

theorem Effect.relation {env : Env} (h : Effect env now v db stmt v' ws) :
    ∀ w ∈ ws, stmt.relation = some w.relation := by
  intro w hw
  cases h with
  | reapLeases ids => obtain ⟨id, -, rfl⟩ := List.mem_map.mp hw; rfl
  | deleteRows hassert => obtain ⟨x, -, rfl⟩ := List.mem_map.mp hw; rfl
  | clearProvenance table c => obtain ⟨x, -, rfl⟩ := List.mem_map.mp hw; rfl
  | deleteChunks hmay => obtain ⟨no, -, rfl⟩ := List.mem_map.mp hw; rfl
  | _ =>
    first
    | exact absurd hw List.not_mem_nil
    | rw [List.mem_singleton.mp hw]; rfl

abbrev DeletionTx := Tx Call Db Lock Vars Write DbError

/-- Every write comes from a statement on its table. -/
def Tagged (_ : Db) (done : List Sql) (t : DeletionTx) : Prop :=
  ∀ w ∈ t.writes, ∃ stmt ∈ done, stmt.relation = some w.relation

theorem taggedRule (env : Env) :
    PlanRule (store env) .any (fun _ => True) (fun _ _ _ => True) (fun _ => True) Tagged where
  advance _ _ _ := trivial
  refuse _ _ _ _ := trivial
  begin _ _ _ w hw := absurd hw List.not_mem_nil
  exec p done stmt todo t vars ws _ _ _ hown _ _ hexec := by
    intro w hw
    rcases List.mem_append.mp hw with hw | hw
    · obtain ⟨k, hk, hrel⟩ := hown w hw
      exact ⟨k, List.mem_append_left _ hk, hrel⟩
    · exact ⟨stmt, by simp, (effect_of_exec hexec).relation w hw⟩
  commit _ _ _ _ _ _ _ _ _ := trivial
  ownCommit _ _ _ _ _ _ _ _ _ hu _ _ _ _ := hu

variable {rel : Relation}

theorem read_view_of_relation {env : Env} {read : Db → α}
    (hread : ∀ db w, w.relation ≠ rel → read (Db.apply db w) = read db)
    (h : ∀ w ∈ ws, w.relation ≠ rel) : read (view (store env).system db ws) = read db := by
  induction ws generalizing db with
  | nil => rfl
  | cons w ws ih =>
    refine (ih fun w' hw' => h w' (List.mem_cons_of_mem w hw')).trans ?_
    exact hread db w (h w List.mem_cons_self)

theorem seen_of_untouched {env : Env} {read : Db → α}
    (hread : ∀ db w, w.relation ≠ rel → read (Db.apply db w) = read db) {done : List Sql}
    {t : DeletionTx} (htags : Tagged db done t) (hnone : ∀ stmt ∈ done, stmt.relation ≠ some rel) :
    read ((store env).seen db t) = read db := by
  refine read_view_of_relation hread ?_
  intro w hw heq
  obtain ⟨stmt, hstmt, hrel⟩ := htags w hw
  exact hnone stmt hstmt (by rw [hrel, heq])

theorem Effect.read_view {env : Env} {read : Db → α}
    (hread : ∀ db w, w.relation ≠ rel → read (Db.apply db w) = read db)
    (h : Effect env now v db stmt v' ws) (hrel : stmt.relation ≠ some rel) :
    read (view (store env).system db ws) = read db := by
  refine read_view_of_relation hread ?_
  intro w hw heq
  exact hrel (by rw [h.relation w hw, heq])

theorem communities_apply (db : Db) (w : Write) (h : w.relation ≠ .communities) :
    (db.apply w).communities = db.communities := by
  cases w <;> simp_all [Write.relation, Db.apply]

theorem requests_apply (db : Db) (w : Write) (h : w.relation ≠ .requests) :
    (db.apply w).requests = db.requests := by
  cases w <;> simp_all [Write.relation, Db.apply]

theorem leases_apply (db : Db) (w : Write) (h : w.relation ≠ .leases) :
    (db.apply w).leases = db.leases := by
  cases w <;> simp_all [Write.relation, Db.apply]

end Vingilot.Deletion
