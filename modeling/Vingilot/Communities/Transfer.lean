import Vingilot.Communities.Ownership

/-!
# Communities keep one owner (`buzz-db/src/relay_members.rs`)

Two transfers of one community exclude each other by the row of its owner, and two calls for one
recipient by its advisory key.
-/

namespace Vingilot.Communities

open Transactions

variable {limit : Nat} {start db seen : Db} {key : MemberKey} {t u : OwnershipTx}
  {done todo : List Sql} {stmt : Sql} {v : Vars} {ws : List Write}

/-! ## What a transfer and a creation write -/

structure Moves (db : Db) (done : List Sql) (t : OwnershipTx) : Prop where
  recipient : ∀ key row, t.call.recipient = some key → .member key row ∈ t.writes →
    row.map RelayMember.role = some .owner
  apart : ∀ args, t.call = .transferOwnership args → ∀ x ∈ t.vars.others, x.1 ≠ args.pubkey
  upserted : ∀ args, .upsertOwner args ∈ done →
    ∃ row, .member (args.community, args.pubkey) row ∈ t.writes
  listed : ∀ args, .readOthers args ∈ done → args.expectedOwner ≠ args.pubkey →
    (∃ row, .member (args.community, args.expectedOwner) row ∈ t.writes) ∨
      (.memberRow (args.community, args.expectedOwner), .exclusive) ∈ t.held ∧
        ∃ row, db.relayMembers.get? (args.community, args.expectedOwner) = some row ∧
          (args.expectedOwner, row.rowId) ∈ t.vars.others
  demoted : ∀ args, .demoteOthers args ∈ done → args.expectedOwner ≠ args.pubkey →
    ∃ row, .member (args.community, args.expectedOwner) row ∈ t.writes
  founding : ∀ id row, .community id row ∈ t.writes → t.vars.created = true
  founder : ∀ args key row, t.call = .createCommunityWithOwner args → .member key row ∈ t.writes →
    ∃ row, .community args.community row ∈ t.writes
  founded : ∀ args, .insertOwner args ∈ done → t.vars.created = true →
    ∃ row, .member (args.community, args.owner) row ∈ t.writes

theorem others_kept (h : Effect limit t.vars seen stmt v ws)
    (hstmt : ∀ args, stmt ≠ .readOthers args) : v.others = t.vars.others := by
  cases h with
  | readOthers => exact absurd rfl (hstmt _)
  | _ => rfl

variable {args : TransferOwnership}

theorem Sql.target_transfer {call : Call} (hcall : call = .transferOwnership args)
    (h : stmt ∈ call.plan) : stmt.target = none := by
  have hall : ∀ stmt ∈ (Call.transferOwnership args).plan, stmt.target = none := by
    simp [Call.plan, Sql.target]
  exact hall stmt (hcall ▸ h)

theorem Sql.target_creation {call : Call} {args : CreateCommunity}
    (hcall : call = .createCommunityWithOwner args) (h : stmt ∈ call.plan) :
    stmt.target = none := by
  have hall : ∀ stmt ∈ (Call.createCommunityWithOwner args).plan, stmt.target = none := by
    simp [Call.plan, Sql.target]
  exact hall stmt (hcall ▸ h)

theorem Sql.target_recipient (hrecipient : t.call.recipient = some key) (h : stmt ∈ t.call.plan) :
    stmt.target = none := by
  cases hcall : t.call with
  | createCommunityWithOwner args => exact Sql.target_creation hcall h
  | transferOwnership args => exact Sql.target_transfer hcall h
  | _ => rw [hcall] at hrecipient; cases hrecipient

variable {row : Option RelayMember}

theorem recipient_new (h : Moves db done t) (heffect : Effect limit t.vars seen stmt v ws)
    (hmem : stmt ∈ t.call.plan) (hrecipient : t.call.recipient = some key)
    (hw : .member key row ∈ ws) : row.map RelayMember.role = some .owner := by
  have htarget := Sql.target_recipient hrecipient hmem
  cases heffect with
  | insertOwner hcreated hnew hrow => cases List.mem_singleton.mp hw; exact congrArg some hrow
  | upsertOwner hrow => cases List.mem_singleton.mp hw; exact congrArg some hrow
  | @demoteOthers args ws hws hall =>
    obtain ⟨x, hx, row', -, heq⟩ := hws _ hw
    cases heq
    have hcall := transfer_of_mem hmem rfl
    rw [hcall] at hrecipient
    have hp : args.pubkey = x.1 := congrArg Prod.snd (Option.some.inj hrecipient)
    exact absurd hp.symm (h.apart args hcall x (List.mem_filter.mp hx).1)
  | insertCommunity hnew => cases List.mem_singleton.mp hw
  | insertMember hnew hthere => cases htarget
  | updateRole hpresent hold hthere hnew => cases htarget
  | deleteRow hpresent hold => cases htarget
  | _ => cases hw

theorem apart_new (h : Moves db done t) (heffect : Effect limit t.vars seen stmt v ws)
    (hmem : stmt ∈ t.call.plan) (hcall : t.call = .transferOwnership args) :
    ∀ x ∈ v.others, x.1 ≠ args.pubkey := by
  by_cases hstmt : ∃ args', stmt = .readOthers args'
  · obtain ⟨args', rfl⟩ := hstmt
    have hcall' := transfer_of_mem hmem rfl
    rw [hcall] at hcall'
    cases hcall'
    cases heffect with
    | readOthers => exact fun x hx => of_decide_eq_true (List.mem_filter.mp hx).2
  · rw [others_kept heffect fun args' heq => hstmt ⟨args', heq⟩]
    exact h.apart args hcall

theorem written_or_seen (limit : Nat) (db : Db) (t : OwnershipTx) (key : MemberKey) :
    (∃ row, .member key row ∈ t.writes) ∨
      ((store limit).seen db t).relayMembers.get? key = db.relayMembers.get? key := by
  rcases relayMembers_view limit db t.writes key with ⟨hsame, -⟩ | ⟨row, hmem, -⟩
  · exact .inr hsame
  · exact .inl ⟨row, hmem⟩

theorem listed_new (hbase : Base db done t) (h : Moves db done t)
    (heffect : Effect limit t.vars ((store limit).seen db t) stmt v ws)
    (hplan : t.call.plan = done ++ stmt :: todo) (hdone : .readOthers args ∈ done ++ [stmt])
    (hne : args.expectedOwner ≠ args.pubkey) :
    (∃ row, .member (args.community, args.expectedOwner) row ∈ t.writes) ∨
      (.memberRow (args.community, args.expectedOwner), .exclusive) ∈ t.held ∧
        ∃ row, db.relayMembers.get? (args.community, args.expectedOwner) = some row ∧
          (args.expectedOwner, row.rowId) ∈ v.others := by
  by_cases hstmt : ∃ args', stmt = .readOthers args'
  · obtain ⟨args', rfl⟩ := hstmt
    have hcall := transfer_of_mem (mem_plan hplan hdone) rfl
    rw [transfer_of_mem (stmt_mem_plan hplan) rfl] at hcall
    cases hcall
    refine (written_or_seen limit db t _).imp_right fun hseen => ?_
    obtain ⟨howner, hheld⟩ := hbase.expected args (needs_of_plan hplan)
    obtain ⟨row, hrow, hrole⟩ := Option.map_eq_some_iff.mp howner
    refine ⟨hheld, row, hrow, ?_⟩
    cases heffect with
    | readOthers =>
      refine List.mem_filter.mpr ⟨mem_owners.mpr ⟨row, hseen.trans hrow, hrole, rfl⟩, ?_⟩
      simpa using hne
  · have hne' : ∀ args', stmt ≠ .readOthers args' := fun args' heq => hstmt ⟨args', heq⟩
    rw [others_kept heffect hne']
    rcases List.mem_append.mp hdone with hdone | hdone
    · exact h.listed args hdone hne
    · exact absurd (List.mem_singleton.mp hdone).symm (hne' args)

theorem demoted_new (hbase : Base db done t) (h : Moves db done t)
    (heffect : Effect limit t.vars ((store limit).seen db t) (.demoteOthers args) v ws)
    (hneeds : Needs done (.demoteOthers args)) (hne : args.expectedOwner ≠ args.pubkey) :
    ∃ row, .member (args.community, args.expectedOwner) row ∈ t.writes ++ ws := by
  rcases written_or_seen limit db t (args.community, args.expectedOwner) with ⟨row, hrow⟩ | hseen
  · exact ⟨row, List.mem_append_left ws hrow⟩
  · rcases h.listed args hneeds.2.2 hne with ⟨row, hrow⟩ | ⟨-, row, hrow, hlisted⟩
    · exact ⟨row, List.mem_append_left ws hrow⟩
    · cases heffect with
      | demoteOthers hws hall =>
        have howner := (hbase.expected args hneeds.1).1
        rw [role_of_get hrow] at howner
        obtain ⟨row', hw⟩ := hall _ hlisted row
          (current_some.mpr ⟨hseen.trans hrow, rfl⟩) (Option.some.inj howner)
        exact ⟨row', List.mem_append_right _ hw⟩

theorem founding_new (hbase : Base db done t) (h : Moves db done t)
    (heffect : Effect limit t.vars seen stmt v ws) (hmem : stmt ∈ t.call.plan)
    (hneeds : Needs done stmt) {id : CommunityId} {row : Community}
    (hw : .community id row ∈ t.writes ++ ws) : v.created = true := by
  by_cases hstmt : ∃ args, stmt = .insertCommunity args
  · obtain ⟨args, rfl⟩ := hstmt
    cases heffect with
    | insertCommunity hnew => rfl
    | hostTaken =>
      rw [List.append_nil] at hw
      obtain ⟨-, args', hcall, -, hdone⟩ := hbase.fresh id row hw
      rw [creation_of_mem hmem rfl] at hcall
      cases hcall
      exact absurd hdone hneeds.1
  · have hne : ∀ args, stmt ≠ .insertCommunity args := fun args heq => hstmt ⟨args, heq⟩
    rw [created_kept heffect hne]
    rcases List.mem_append.mp hw with hw | hw
    · exact h.founding id row hw
    · cases heffect with
      | insertCommunity hnew => exact absurd rfl (hne _)
      | insertOwner hcreated hnew hrow => cases List.mem_singleton.mp hw
      | upsertOwner hrow => cases List.mem_singleton.mp hw
      | demoteOthers hws hall =>
        obtain ⟨x, -, row', -, heq⟩ := hws _ hw
        cases heq
      | insertMember hnew hthere => cases List.mem_singleton.mp hw
      | updateRole hpresent hold hthere hnew => cases List.mem_singleton.mp hw
      | deleteRow hpresent hold => cases List.mem_singleton.mp hw
      | _ => cases hw

theorem founder_new (hbase : Base db done t) (heffect : Effect limit t.vars seen stmt v ws)
    (hmem : stmt ∈ t.call.plan) (hneeds : Needs done stmt) {args : CreateCommunity}
    (hcall : t.call = .createCommunityWithOwner args) (hw : .member key row ∈ ws) :
    ∃ row, .community args.community row ∈ t.writes := by
  have htarget := Sql.target_creation hcall hmem
  have htransfer : ∀ {args'}, stmt.transfer = some args' → False := by
    intro args' hstmt
    have := transfer_of_mem hmem hstmt
    rw [hcall] at this
    cases this
  cases heffect with
  | insertOwner hcreated hnew hrow =>
    have hcall' := creation_of_mem hmem rfl
    rw [hcall] at hcall'
    cases hcall'
    exact hbase.created args hneeds.1 hcreated
  | upsertOwner hrow => exact (htransfer rfl).elim
  | demoteOthers hws hall => exact (htransfer rfl).elim
  | insertCommunity hnew => cases List.mem_singleton.mp hw
  | insertMember hnew hthere => cases htarget
  | updateRole hpresent hold hthere hnew => cases htarget
  | deleteRow hpresent hold => cases htarget
  | _ => cases hw

theorem founded_new (h : Moves db done t) (heffect : Effect limit t.vars seen stmt v ws)
    (hplan : t.call.plan = done ++ stmt :: todo) {args : CreateCommunity}
    (hdone : .insertOwner args ∈ done ++ [stmt]) (hcreated : v.created = true) :
    ∃ row, .member (args.community, args.owner) row ∈ t.writes ++ ws := by
  by_cases hstmt : ∃ args', stmt = .insertCommunity args'
  · obtain ⟨args', rfl⟩ := hstmt
    have hcall := creation_of_mem (mem_plan hplan hdone) rfl
    rw [creation_of_mem (stmt_mem_plan hplan) rfl] at hcall
    cases hcall
    rcases List.mem_append.mp hdone with hdone | hdone
    · exact absurd hdone (needs_of_plan hplan).2.2
    · cases List.mem_singleton.mp hdone
  · have hne : ∀ args, stmt ≠ .insertCommunity args := fun args heq => hstmt ⟨args, heq⟩
    rw [created_kept heffect hne] at hcreated
    rcases List.mem_append.mp hdone with hdone | hdone
    · obtain ⟨row, hrow⟩ := h.founded args hdone hcreated
      exact ⟨row, List.mem_append_left ws hrow⟩
    · cases List.mem_singleton.mp hdone
      cases heffect with
      | insertOwner hcreated' hnew hrow =>
        exact ⟨_, List.mem_append_right _ (List.mem_singleton.mpr rfl)⟩
      | insertNoOwner hnone => rw [hcreated] at hnone; cases hnone

theorem Moves.exec (hbase : Base db done t) (h : Moves db done t)
    (heffect : Effect limit t.vars ((store limit).seen db t) stmt v ws)
    (hplan : t.call.plan = done ++ stmt :: todo)
    (rest : List (Statement Db Lock Vars Write Stopped)) (locks : List (Lock × Mode)) :
    Moves db (done ++ [stmt]) (t.after rest locks v ws) := by
  have hmem := stmt_mem_plan hplan
  have hneeds := needs_of_plan hplan
  constructor
  · intro key row hrecipient hw
    rcases List.mem_append.mp hw with hw | hw
    · exact h.recipient key row hrecipient hw
    · exact recipient_new (t := t) h heffect hmem hrecipient hw
  · intro args hcall
    exact apart_new h heffect hmem hcall
  · intro args hdone
    rcases List.mem_append.mp hdone with hdone | hdone
    · obtain ⟨row, hrow⟩ := h.upserted args hdone
      exact ⟨row, List.mem_append_left ws hrow⟩
    · cases List.mem_singleton.mp hdone
      cases heffect with
      | upsertOwner hrow => exact ⟨_, List.mem_append_right _ (List.mem_singleton.mpr rfl)⟩
  · intro args hdone hne
    rcases listed_new hbase h heffect hplan hdone hne with ⟨row, hrow⟩ | ⟨hheld, hlisted⟩
    · exact .inl ⟨row, List.mem_append_left ws hrow⟩
    · exact .inr ⟨List.mem_append_left locks hheld, hlisted⟩
  · intro args hdone hne
    rcases List.mem_append.mp hdone with hdone | hdone
    · obtain ⟨row, hrow⟩ := h.demoted args hdone hne
      exact ⟨row, List.mem_append_left ws hrow⟩
    · cases List.mem_singleton.mp hdone
      exact demoted_new hbase h heffect hneeds hne
  · intro id row hw
    exact founding_new hbase h heffect hmem hneeds hw
  · intro args key row hcall hw
    have hcommunity : ∃ row, .community args.community row ∈ t.writes := by
      rcases List.mem_append.mp hw with hw | hw
      · exact h.founder args key row hcall hw
      · exact founder_new hbase heffect hmem hneeds hcall hw
    exact hcommunity.imp fun row hrow => List.mem_append_left ws hrow
  · intro args hdone hcreated
    exact founded_new h heffect hplan hdone hcreated

theorem Moves.commit (h : Moves db done u)
    (ht : (store limit).Locked t) (hfit : conflict t.held u.held = false) :
    Moves ((store limit).seen db t) done u where
  recipient := h.recipient
  apart := h.apart
  upserted := h.upserted
  listed args hdone hne := by
    refine (h.listed args hdone hne).imp_right fun ⟨hheld, row, hrow, hlisted⟩ => ?_
    exact ⟨hheld, row, (relayMembers_held ht hfit hheld).trans hrow, hlisted⟩
  demoted := h.demoted
  founding := h.founding
  founder := h.founder
  founded := h.founded

theorem moves_fresh (limit : Nat) (db : Db) (call : Call) (now : Int) :
    Moves db [] (fresh (store limit).system call now) where
  recipient _ _ _ h := absurd h List.not_mem_nil
  apart _ _ _ h := absurd h List.not_mem_nil
  upserted _ h := absurd h List.not_mem_nil
  listed _ h := absurd h List.not_mem_nil
  demoted _ h := absurd h List.not_mem_nil
  founding _ _ h := absurd h List.not_mem_nil
  founder _ _ _ _ h := absurd h List.not_mem_nil
  founded _ h := absurd h List.not_mem_nil

/-! ## One owner -/

def OneOwner (db : Db) (community : CommunityId) : Prop :=
  ∃! p, db.role (community, p) = some .owner

def Given (db : Db) (community : CommunityId) : Prop :=
  db.communities.get? community = none ∨ OneOwner db community

section Commit

variable {community : CommunityId} {p : String}

theorem owner_after (hbase : Base db done t)
    (h : ((store limit).seen db t).role key = some .owner) :
    (db.role key = some .owner ∧ ∀ row, .member key row ∉ t.writes) ∨
      t.call.recipient = some key ∧ ∃ row, .member key row ∈ t.writes := by
  rcases role_view limit db t.writes key with ⟨hsame, hnone⟩ | ⟨row, hmem, hrole⟩
  · exact .inl ⟨hsame.symm.trans h, hnone⟩
  · obtain ⟨row', rfl, howner⟩ := Option.map_eq_some_iff.mp (hrole.symm.trans h)
    exact .inr ⟨hbase.granted key row' hmem howner, _, hmem⟩

theorem recipient_after (hmoves : Moves db done t) (hrecipient : t.call.recipient = some key)
    (hwritten : ∃ row, .member key row ∈ t.writes) :
    ((store limit).seen db t).role key = some .owner := by
  rcases role_view limit db t.writes key with ⟨-, hnone⟩ | ⟨row, hmem, hrole⟩
  · obtain ⟨row, hrow⟩ := hwritten
    exact absurd hrow (hnone row)
  · exact hrole.trans (hmoves.recipient key row hrecipient hmem)

theorem oneOwner_transfer (hbase : Base db t.call.plan t) (hmoves : Moves db t.call.plan t)
    (hcall : t.call = .transferOwnership args) (hone : OneOwner db args.community) :
    OneOwner ((store limit).seen db t) args.community := by
  have hplan : t.call.plan = (Call.transferOwnership args).plan := by rw [hcall]
  have hexpected := (hbase.expected args (by rw [hplan]; simp [Call.plan])).1
  have hupserted := hmoves.upserted args (by rw [hplan]; simp [Call.plan])
  have hdemoted := hmoves.demoted args (by rw [hplan]; simp [Call.plan])
  have hrecipient : t.call.recipient = some (args.community, args.pubkey) := by rw [hcall]; rfl
  refine ⟨args.pubkey, recipient_after hmoves hrecipient hupserted, fun p hp => ?_⟩
  rcases owner_after hbase hp with ⟨hold, hunwritten⟩ | ⟨hgranted, -⟩
  · obtain rfl : p = args.expectedOwner := hone.unique hold hexpected
    by_contra hne
    obtain ⟨row, hrow⟩ := hdemoted hne
    exact hunwritten row hrow
  · rw [hrecipient] at hgranted
    exact (congrArg Prod.snd (Option.some.inj hgranted)).symm

theorem oneOwner_created {args : CreateCommunity} (hlinked : Linked db)
    (hbase : Base db t.call.plan t) (hmoves : Moves db t.call.plan t)
    (hcall : t.call = .createCommunityWithOwner args)
    (hnew : db.communities.get? args.community = none) {row : Community}
    (hrow : .community args.community row ∈ t.writes) :
    OneOwner ((store limit).seen db t) args.community := by
  have hplan : t.call.plan = (Call.createCommunityWithOwner args).plan := by rw [hcall]
  have hfounded := hmoves.founded args (by rw [hplan]; simp [Call.plan])
    (hmoves.founding _ row hrow)
  have hrecipient : t.call.recipient = some (args.community, args.owner) := by rw [hcall]; rfl
  refine ⟨args.owner, recipient_after hmoves hrecipient hfounded, fun p hp => ?_⟩
  rcases owner_after hbase hp with ⟨hold, -⟩ | ⟨hgranted, -⟩
  · have hthere := there_of_owner hlinked hold
    rw [hnew] at hthere
    cases hthere
  · rw [hrecipient] at hgranted
    exact (congrArg Prod.snd (Option.some.inj hgranted)).symm

theorem oneOwner_spared (hbase : Base db t.call.plan t) (hmoves : Moves db t.call.plan t)
    (htransfer : ¬ t.call.transfers community) (hthere : (db.communities.get? community).isSome)
    (hone : OneOwner db community) : OneOwner ((store limit).seen db t) community := by
  have hsame : ∀ p, ((store limit).seen db t).role (community, p) = some .owner ↔
      db.role (community, p) = some .owner := by
    intro p
    constructor
    · intro hp
      rcases owner_after hbase hp with ⟨hold, -⟩ | ⟨hgranted, row, hrow⟩
      · exact hold
      · exfalso
        cases hcall : t.call with
        | transferOwnership args =>
          rw [hcall] at hgranted
          cases hgranted
          exact htransfer ⟨args, hcall, rfl⟩
        | createCommunityWithOwner args =>
          obtain ⟨row', hfounder⟩ := hmoves.founder args _ row hcall hrow
          rw [hcall] at hgranted
          cases hgranted
          rw [(hbase.fresh _ row' hfounder).1] at hthere
          cases hthere
        | _ => rw [hcall] at hgranted; cases hgranted
    · intro hp
      rcases role_view limit db t.writes (community, p) with ⟨hsame, -⟩ | ⟨row, hmem, -⟩
      · exact hsame.trans hp
      · rcases hbase.spared _ row hmem with hspared | htransfers
        · exact absurd hp hspared
        · exact absurd htransfers htransfer
  obtain ⟨p, hp, hunique⟩ := hone
  exact ⟨p, (hsame p).mpr hp, fun q hq => hunique q ((hsame q).mp hq)⟩

end Commit

theorem oneOwner_commit (hlinked : Linked db) (hbase : Base db t.call.plan t)
    (hmoves : Moves db t.call.plan t)
    (h : ∀ c, Given start c → (db.communities.get? c).isSome → OneOwner db c) :
    ∀ c, Given start c → (((store limit).seen db t).communities.get? c).isSome →
      OneOwner ((store limit).seen db t) c := by
  intro c hgiven hthere
  by_cases hold : (db.communities.get? c).isSome
  · by_cases htransfer : t.call.transfers c
    · obtain ⟨args, hcall, rfl⟩ := htransfer
      exact oneOwner_transfer hbase hmoves hcall (h _ hgiven hold)
    · exact oneOwner_spared hbase hmoves htransfer hold (h c hgiven hold)
  · have hnone : db.communities.get? c = none := Option.not_isSome_iff_eq_none.mp hold
    rcases communities_view hthere with hthere | ⟨row, hrow⟩
    · exact absurd hthere hold
    · obtain ⟨-, args, hcall, rfl, -⟩ := hbase.fresh c row hrow
      exact oneOwner_created hlinked hbase hmoves hcall hnone hrow

theorem owners_rule (limit : Nat) (start : Db) : PlanRule (store limit) .any
    (fun p => True ∧ Linked p.db) (fun db done t => True ∧ Base db done t)
    (fun p : OwnershipPublic => ∀ c, Given start c → (p.db.communities.get? c).isSome →
      OneOwner p.db c) Moves where
  advance _ _ h := h
  refuse _ _ _ h := h
  begin p call _ := moves_fresh limit p.db call p.clock
  exec _ _ k _ t _ _ _ _ hbase h hplan _ hexec :=
    h.exec hbase.2 (@exec_effect limit _ k t.now _ _ _ hexec) hplan _ _
  commit _ _ hlinked h hbase hmoves _ _ _ := oneOwner_commit hlinked.2 hbase.2 hmoves h
  ownCommit _ _ _ _ _ _ _ _ _ hu hlt _ hfit _ := hu.commit hlt hfit

/-! ## The limit -/

structure Counted (limit : Nat) (db : Db) (done : List Sql) (t : OwnershipTx) : Prop where
  transfer : ∀ args, .countForTransfer args ∈ done → db.ownedCount args.pubkey < limit ∧
    (.advisory (ownerCountAdvisoryLockKey args.pubkey), .exclusive) ∈ t.held
  creation : ∀ args, .countForCreate args ∈ done → t.vars.created = true →
    db.ownedCount args.owner < limit ∧
      (.advisory (ownerCountAdvisoryLockKey args.owner), .exclusive) ∈ t.held

theorem role_seen_creation (hbase : Base db done t) {args : CreateCommunity}
    (hcall : t.call = .createCommunityWithOwner args) (h : db.role key = some .owner) :
    ((store limit).seen db t).role key = some .owner := by
  rcases role_view limit db t.writes key with ⟨hsame, -⟩ | ⟨row, hmem, -⟩
  · exact hsame.trans h
  · rcases hbase.spared key row hmem with hspared | ⟨args', htransfer, -⟩
    · exact absurd h hspared
    · rw [hcall] at htransfer
      cases htransfer

theorem countedTransfer_new (hbase : Base db done t) (h : Counted limit db done t)
    (heffect : Effect limit t.vars ((store limit).seen db t) stmt v ws)
    (hplan : t.call.plan = done ++ stmt :: todo) (hdone : .countForTransfer args ∈ done ++ [stmt]) :
    db.ownedCount args.pubkey < limit ∧
      (.advisory (ownerCountAdvisoryLockKey args.pubkey), .exclusive) ∈ t.held := by
  rcases List.mem_append.mp hdone with hdone | hdone
  · exact h.transfer args hdone
  · cases List.mem_singleton.mp hdone
    have hneeds := needs_of_plan hplan
    have hcall := transfer_of_mem (stmt_mem_plan hplan) rfl
    refine ⟨?_, hbase.advisory _ hneeds.1⟩
    cases heffect with
    | countForTransfer hcount =>
      refine Nat.lt_of_le_of_lt (ownedCount_le fun c hc => ?_) hcount
      rw [role_before_upsert hbase hcall hneeds.2]
      exact hc

theorem countedCreation_new (hbase : Base db done t) (h : Counted limit db done t)
    (heffect : Effect limit t.vars ((store limit).seen db t) stmt v ws)
    (hplan : t.call.plan = done ++ stmt :: todo) {args : CreateCommunity}
    (hdone : .countForCreate args ∈ done ++ [stmt]) (hcreated : v.created = true) :
    db.ownedCount args.owner < limit ∧
      (.advisory (ownerCountAdvisoryLockKey args.owner), .exclusive) ∈ t.held := by
  have hcall := creation_of_mem (mem_plan hplan hdone) rfl
  have hneeds := needs_of_plan hplan
  have hne : ∀ args', stmt ≠ .insertCommunity args' := by
    rintro args' rfl
    have hcall' := creation_of_mem (stmt_mem_plan hplan) rfl
    rw [hcall] at hcall'
    cases hcall'
    rcases List.mem_append.mp hdone with hdone | hdone
    · exact hneeds.2.1 hdone
    · cases List.mem_singleton.mp hdone
  rw [created_kept heffect hne] at hcreated
  rcases List.mem_append.mp hdone with hdone | hdone
  · exact h.creation args hdone hcreated
  · cases List.mem_singleton.mp hdone
    refine ⟨?_, hbase.advisory _ hneeds⟩
    cases heffect with
    | countForCreate hcount =>
      exact Nat.lt_of_le_of_lt (ownedCount_le fun c hc => role_seen_creation hbase hcall hc)
        (hcount hcreated)

theorem advisory_of_recipient (hbase : Base db t.call.plan t)
    (hrecipient : t.call.recipient = some key) :
    (.advisory (ownerCountAdvisoryLockKey key.2), .exclusive) ∈ t.held := by
  refine hbase.advisory key.2 ?_
  cases hcall : t.call with
  | transferOwnership args => rw [hcall] at hrecipient; cases hrecipient; simp [Call.plan]
  | createCommunityWithOwner args => rw [hcall] at hrecipient; cases hrecipient; simp [Call.plan]
  | _ => rw [hcall] at hrecipient; cases hrecipient

theorem ownedCount_commit {p : String} (hbase : Base db t.call.plan t)
    (hfit : conflict t.held u.held = false)
    (hheld : (.advisory (ownerCountAdvisoryLockKey p), .exclusive) ∈ u.held) :
    ((store limit).seen db t).ownedCount p ≤ db.ownedCount p := by
  refine ownedCount_le fun c hc => ?_
  rcases owner_after hbase hc with ⟨hold, -⟩ | ⟨hrecipient, -⟩
  · exact hold
  · exact absurd (advisory_of_recipient hbase hrecipient) (not_exclusive_of_held hfit hheld)

theorem Counted.commit (hbase : Base db t.call.plan t) (h : Counted limit db done u)
    (hfit : conflict t.held u.held = false) :
    Counted limit ((store limit).seen db t) done u where
  transfer args hdone := by
    obtain ⟨hcount, hheld⟩ := h.transfer args hdone
    exact ⟨Nat.lt_of_le_of_lt (ownedCount_commit hbase hfit hheld) hcount, hheld⟩
  creation args hdone hcreated := by
    obtain ⟨hcount, hheld⟩ := h.creation args hdone hcreated
    exact ⟨Nat.lt_of_le_of_lt (ownedCount_commit hbase hfit hheld) hcount, hheld⟩

theorem count_lt_of_written (hmoves : Moves db t.call.plan t)
    (hcounted : Counted limit db t.call.plan t) (hrecipient : t.call.recipient = some key)
    (hw : .member key row ∈ t.writes) : db.ownedCount key.2 < limit := by
  cases hcall : t.call with
  | transferOwnership args =>
    rw [hcall] at hrecipient
    cases hrecipient
    exact (hcounted.transfer args (by rw [hcall]; simp [Call.plan])).1
  | createCommunityWithOwner args =>
    obtain ⟨row', hfounder⟩ := hmoves.founder args key row hcall hw
    rw [hcall] at hrecipient
    cases hrecipient
    exact (hcounted.creation args (by rw [hcall]; simp [Call.plan])
      (hmoves.founding _ row' hfounder)).1
  | _ => rw [hcall] at hrecipient; cases hrecipient

theorem limit_commit (hbase : Base db t.call.plan t) (hmoves : Moves db t.call.plan t)
    (hcounted : Counted limit db t.call.plan t)
    (h : ∀ p, db.ownedCount p ≤ max (start.ownedCount p) limit) (p : String) :
    ((store limit).seen db t).ownedCount p ≤ max (start.ownedCount p) limit := by
  by_cases hgiven : ∃ c row, t.call.recipient = some (c, p) ∧ .member (c, p) row ∈ t.writes
  · obtain ⟨c, row, hrecipient, hw⟩ := hgiven
    have hlt := count_lt_of_written hmoves hcounted hrecipient hw
    have hsucc : ((store limit).seen db t).ownedCount p ≤ db.ownedCount p + 1 := by
      refine ownedCount_le_succ c fun c' hc' => ?_
      rcases owner_after hbase hc' with ⟨hold, -⟩ | ⟨hrecipient', -⟩
      · exact .inr hold
      · rw [hrecipient] at hrecipient'
        exact .inl (congrArg Prod.fst (Option.some.inj hrecipient')).symm
    have hmax : limit ≤ max (start.ownedCount p) limit := Nat.le_max_right ..
    have hle : db.ownedCount p < limit := hlt
    omega
  · refine Nat.le_trans (ownedCount_le fun c hc => ?_) (h p)
    rcases owner_after hbase hc with ⟨hold, -⟩ | ⟨hrecipient, row, hw⟩
    · exact hold
    · exact absurd ⟨c, row, hrecipient, hw⟩ hgiven

theorem limit_rule (limit : Nat) (start : Db) : PlanRule (store limit) .any
    (fun p => True ∧ Linked p.db ∧ ∀ c, Given start c → (p.db.communities.get? c).isSome →
      OneOwner p.db c)
    (fun db done t => True ∧ Base db done t ∧ Moves db done t)
    (fun p : OwnershipPublic => ∀ pubkey,
      p.db.ownedCount pubkey ≤ max (start.ownedCount pubkey) limit)
    (Counted limit) where
  advance p micros h := h
  refuse p call error h := h
  begin p call h := ⟨fun _ h => absurd h List.not_mem_nil, fun _ h => absurd h List.not_mem_nil⟩
  exec p done k todo t vars ws _ _ hown h hplan _ hexec := by
    have heffect := @exec_effect limit _ k t.now _ _ _ hexec
    refine ⟨fun args hdone => ?_, fun args hdone hcreated => ?_⟩
    · obtain ⟨hcount, hheld⟩ := countedTransfer_new hown.2.1 h heffect hplan hdone
      exact ⟨hcount, List.mem_append_left _ hheld⟩
    · obtain ⟨hcount, hheld⟩ := countedCreation_new hown.2.1 h heffect hplan hdone hcreated
      exact ⟨hcount, List.mem_append_left _ hheld⟩
  commit p t _ h hown hcounted _ _ _ := limit_commit hown.2.1 hown.2.2 hcounted h
  ownCommit p t u done _ _ ht _ _ hu _ _ hfit _ := hu.commit ht.2.1 hfit

/-! ## Runs -/

/-- In every state of every run, a community that had one owner at the start or that was created in
the run has one owner, no pubkey has come to own more communities than the limit, and a transfer
whose expected owner is not the owner changes nothing. Members belong to communities at the start. -/
theorem one_owner_within_limit {limit : Nat} {clock : Int} {start : Db}
    {as : List (Action Call Stopped)} {w : OwnershipWorld} (hlinked : Linked start)
    (hrun : Machine.run (step (store limit).system) (.init clock start) as = some w) :
    (∀ c, Given start c → (w.pub.db.communities.get? c).isSome → OneOwner w.pub.db c) ∧
      (∀ p, w.pub.db.ownedCount p ≤ max (start.ownedCount p) limit) ∧
      ∀ tx t args, w.txs.get? tx = some t → t.call = .transferOwnership args →
        w.pub.db.role (args.community, args.expectedOwner) ≠ some .owner →
          ∀ a w', step (store limit).system w a = some w' → (∀ other, a = .commit other → other = tx) →
            w'.pub.db = w.pub.db := by
  have rule := (((base_rule limit).and (owners_rule limit start)).and
    (limit_rule limit start)).always (disciplined limit)
  have hstart : ∀ c, Given start c → (start.communities.get? c).isSome → OneOwner start c := by
    rintro c (hnone | hone) hthere
    · rw [hnone] at hthere
      cases hthere
    · exact hone
  have hkept := run_keeps rule
    (kept_init clock ⟨⟨hlinked, hstart⟩, fun p => Nat.le_max_left ..⟩) hrun
  refine ⟨hkept.inv.1.2, hkept.inv.2, fun tx t args hopen hcall hstale a w' hstep hother => ?_⟩
  by_cases hcommit : a = .commit tx
  · subst hcommit
    obtain ⟨t', hopen', hrest, -⟩ := step_commit hstep
    obtain rfl : t = t' := Option.some.inj (hopen.symm.trans hopen')
    obtain ⟨-, -, ⟨hbase, -⟩, -⟩ := (hkept.own tx t hopen).finished hrest
    have hplan : (store limit).plan t.call = (Call.transferOwnership args).plan := by
      rw [hcall]
      rfl
    exact absurd (hbase.expected args (by rw [hplan]; simp [Call.plan])).1 hstale
  · exact step_db hstep fun other heq => hcommit (heq.trans (congrArg _ (hother other heq)))

/-! ## Two transfers of one community -/

def aliceOwns : Db :=
  ⟨(∅ : Table CommunityId Community).set 1 ⟨"relay.example", none, .active, none⟩,
    ((∅ : Table MemberKey RelayMember).set (1, "alice") ⟨.owner, none, 0⟩).set (1, "bob")
      ⟨.member, none, 1⟩⟩

def toBob : Call := .transferOwnership ⟨1, 2, "bob", "alice"⟩

def toCarol : Call := .transferOwnership ⟨1, 3, "Carol", "alice"⟩

def racingTransfers : List (Action Call Stopped) :=
  [Action.begin toBob, .begin toCarol] ++ List.replicate 3 (Action.exec 0) ++
    List.replicate 2 (Action.exec 1) ++ List.replicate 5 (Action.exec 0) ++ [Action.commit 0] ++
    List.replicate 2 (Action.exec 1)

theorem aliceOwns_linked : Linked aliceOwns := by
  intro key row hrow
  simp only [aliceOwns, Table.get?_set] at hrow
  split_ifs at hrow with hbob halice
  · subst hbob; decide
  · subst halice; decide
  · cases hrow

theorem one_owner_within_limit_racing : ∃ w : OwnershipWorld,
    Machine.run (step (store 5).system) (.init 0 aliceOwns) racingTransfers = some w ∧
      w.pub.db.owners 1 = [("bob", 1)] ∧
      (w.pub.answers.map fun x => x.2.toOption.isSome) = [true, false] ∧
      (∀ c, Given aliceOwns c → (w.pub.db.communities.get? c).isSome → OneOwner w.pub.db c) ∧
      (∀ p, w.pub.db.ownedCount p ≤ max (aliceOwns.ownedCount p) 5) := by
  have hdemo : ((Machine.run (step (store 5).system) (.init 0 aliceOwns) racingTransfers).any fun w =>
      w.pub.db.owners 1 == [("bob", 1)] &&
        (w.pub.answers.map fun x => x.2.toOption.isSome) == [true, false]) = true := by
    decide +kernel
  obtain ⟨w, hrun, h⟩ := (Option.any_eq_true _ _).mp hdemo
  simp only [Bool.and_eq_true, beq_iff_eq] at h
  have hmain := one_owner_within_limit aliceOwns_linked hrun
  exact ⟨w, hrun, h.1, h.2, hmain.1, hmain.2.1⟩

end Vingilot.Communities
