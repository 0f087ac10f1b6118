import Vingilot.Communities.Effects

/-!
# What the locks on owners keep (`buzz-db/src/relay_members.rs`)

A transfer holds the row of the owner that it expects from its check to its end, and the advisory
key of its recipient from its start. A removal or a role change never writes the row of an owner.
-/

namespace Vingilot.Communities

open Transactions

variable {limit : Nat} {db seen : Db} {key : MemberKey} {t u : OwnershipTx}

/-! ## The order of a plan -/

def Sql.transfer : Sql → Option TransferOwnership
  | readOwners args | lockOwners args | checkOwners args | countForTransfer args
  | upsertOwner args | readOthers args | demoteOthers args => some args
  | _ => none

def Sql.creation : Sql → Option CreateCommunity
  | insertCommunity args | countForCreate args | insertOwner args | readExisting args => some args
  | _ => none

def Sql.target : Sql → Option MemberKey
  | insertMember key _ _ _ | deleteRow key _ | updateRole key _ => some key
  | _ => none

variable {call : Call} {args : TransferOwnership}

theorem transfer_of_mem {stmt : Sql} (h : stmt ∈ call.plan) (hstmt : stmt.transfer = some args) :
    call = .transferOwnership args := by
  have hall : ∀ stmt ∈ call.plan, ∀ args, stmt.transfer = some args →
      call = .transferOwnership args := by
    cases call <;> simp [Call.plan, removalPlan, Sql.transfer]
  exact hall stmt h args hstmt

theorem creation_of_mem {stmt : Sql} {args : CreateCommunity} (h : stmt ∈ call.plan)
    (hstmt : stmt.creation = some args) : call = .createCommunityWithOwner args := by
  have hall : ∀ stmt ∈ call.plan, ∀ args, stmt.creation = some args →
      call = .createCommunityWithOwner args := by
    cases call <;> simp [Call.plan, removalPlan, Sql.creation]
  exact hall stmt h args hstmt

def Needs (done : List Sql) : Sql → Prop
  | .insertCommunity args =>
    .insertCommunity args ∉ done ∧ .countForCreate args ∉ done ∧ .insertOwner args ∉ done
  | .countForCreate args => .lockRecipient args.owner ∈ done
  | .insertOwner args => .insertCommunity args ∈ done ∧ .countForCreate args ∈ done
  | .lockOwners args => .upsertOwner args ∉ done
  | .countForTransfer args => .lockRecipient args.pubkey ∈ done ∧ .upsertOwner args ∉ done
  | .upsertOwner args => .checkOwners args ∈ done ∧ .countForTransfer args ∈ done
  | .readOthers args => .checkOwners args ∈ done
  | .demoteOthers args =>
    .checkOwners args ∈ done ∧ .upsertOwner args ∈ done ∧ .readOthers args ∈ done
  | _ => True

theorem plan_ordered (call : Call) : Ordered Needs [] call.plan := by
  cases call <;> simp [Call.plan, removalPlan, Ordered, Needs]

theorem needs_of_plan {done todo : List Sql} {stmt : Sql} (h : call.plan = done ++ stmt :: todo) :
    Needs done stmt := by
  have hordered := plan_ordered call
  rw [h] at hordered
  exact needs_of_ordered hordered

/-! ## What an open transaction knows -/

def Call.recipient : Call → Option MemberKey
  | createCommunityWithOwner args => some (args.community, args.owner)
  | transferOwnership args => some (args.community, args.pubkey)
  | _ => none

def Call.transfers (call : Call) (community : CommunityId) : Prop :=
  ∃ args, call = .transferOwnership args ∧ community = args.community

def Linked (db : Db) : Prop :=
  ∀ key row, db.relayMembers.get? key = some row → (db.communities.get? key.1).isSome

structure Base (db : Db) (done : List Sql) (t : OwnershipTx) : Prop where
  advisory : ∀ p, .lockRecipient p ∈ done →
    (.advisory (ownerCountAdvisoryLockKey p), .exclusive) ∈ t.held
  granted : ∀ key row, .member key (some row) ∈ t.writes → row.role = .owner →
    t.call.recipient = some key
  /-- Only a transfer writes the row of an owner. -/
  spared : ∀ key row, .member key row ∈ t.writes →
    db.role key ≠ some .owner ∨ t.call.transfers key.1
  there : ∀ key row, .member key row ∈ t.writes →
    (db.communities.get? key.1).isSome ∨ ∃ row, .community key.1 row ∈ t.writes
  fresh : ∀ id row, .community id row ∈ t.writes → db.communities.get? id = none ∧
    ∃ args, t.call = .createCommunityWithOwner args ∧ id = args.community ∧
      .insertCommunity args ∈ done
  created : ∀ args, .insertCommunity args ∈ done → t.vars.created = true →
    ∃ row, .community args.community row ∈ t.writes
  wrote : ∀ args w, t.call = .transferOwnership args → w ∈ t.writes → .upsertOwner args ∈ done
  locked : ∀ args, t.call = .transferOwnership args → ∀ p ∈ t.vars.existingOwners,
    db.role (args.community, p) = some .owner ∧
      (.memberRow (args.community, p), .exclusive) ∈ t.held
  expected : ∀ args, .checkOwners args ∈ done →
    db.role (args.community, args.expectedOwner) = some .owner ∧
      (.memberRow (args.community, args.expectedOwner), .exclusive) ∈ t.held

theorem spared_of_seen (h : ∀ key row, .member key row ∈ t.writes →
      db.role key ≠ some .owner ∨ t.call.transfers key.1)
    (hrole : ((store limit).seen db t).role key ≠ some .owner) :
    db.role key ≠ some .owner ∨ t.call.transfers key.1 := by
  rcases role_view limit db t.writes key with ⟨hsame, -⟩ | ⟨row, hmem, -⟩
  · exact .inl (by rw [← hsame]; exact hrole)
  · exact h key row hmem

theorem there_of_seen (hlinked : Linked db) (h : ∀ key row, .member key row ∈ t.writes →
      (db.communities.get? key.1).isSome ∨ ∃ row, .community key.1 row ∈ t.writes)
    (hrow : (((store limit).seen db t).relayMembers.get? key).isSome) :
    (db.communities.get? key.1).isSome ∨ ∃ row, .community key.1 row ∈ t.writes := by
  rcases relayMembers_view limit db t.writes key with ⟨hsame, -⟩ | ⟨row, hmem, -⟩
  · obtain ⟨row, hget⟩ := Option.isSome_iff_exists.mp hrow
    exact .inl (hlinked key row (hsame.symm.trans hget))
  · exact h key row hmem

theorem there_of_owner (hlinked : Linked db) {community : CommunityId} {p : String}
    (h : db.role (community, p) = some .owner) : (db.communities.get? community).isSome := by
  obtain ⟨row, hrow, -⟩ := Option.map_eq_some_iff.mp h
  exact hlinked (community, p) row hrow

section Exec

variable {done todo : List Sql} {stmt : Sql} {v : Vars} {ws : List Write}

theorem created_kept (h : Effect limit t.vars db stmt v ws)
    (hstmt : ∀ args, stmt ≠ .insertCommunity args) : v.created = t.vars.created := by
  cases h with
  | insertCommunity hnew => exact absurd rfl (hstmt _)
  | hostTaken => exact absurd rfl (hstmt _)
  | _ => rfl

theorem existingOwners_kept (h : Effect limit t.vars db stmt v ws)
    (hstmt : ∀ args, stmt ≠ .lockOwners args) : v.existingOwners = t.vars.existingOwners := by
  cases h with
  | lockOwners howners => exact absurd rfl (hstmt _)
  | _ => rfl

theorem granted_new (heffect : Effect limit t.vars seen stmt v ws) (hmem : stmt ∈ t.call.plan)
    {row : RelayMember} (hw : .member key (some row) ∈ ws) (hrole : row.role = .owner) :
    t.call.recipient = some key := by
  cases heffect with
  | insertOwner hcreated hnew hrow =>
    cases List.mem_singleton.mp hw
    rw [creation_of_mem hmem rfl]
    rfl
  | upsertOwner hrow =>
    cases List.mem_singleton.mp hw
    rw [transfer_of_mem hmem rfl]
    rfl
  | demoteOthers hws hall =>
    obtain ⟨x, -, row', hmember, heq⟩ := hws _ hw
    cases heq
    rw [hmember] at hrole
    cases hrole
  | @insertMember key' role addedBy rowId hnew hthere =>
    cases List.mem_singleton.mp hw
    exact absurd hrole role.2
  | @updateRole key' newRole row' hpresent hold hthere hnew =>
    cases List.mem_singleton.mp hw
    exact absurd (hnew.symm.trans hrole) newRole.2
  | deleteRow hpresent hold => cases List.mem_singleton.mp hw
  | insertCommunity hnew => cases List.mem_singleton.mp hw
  | _ => cases hw

theorem spared_new (h : Base db done t)
    (heffect : Effect limit t.vars ((store limit).seen db t) stmt v ws) (hmem : stmt ∈ t.call.plan)
    {row : Option RelayMember} (hw : .member key row ∈ ws) :
    db.role key ≠ some .owner ∨ t.call.transfers key.1 := by
  have habsent : ∀ {db : Db} {key : MemberKey}, db.relayMembers.get? key = none →
      db.role key ≠ some .owner := by
    intro db key hnone
    simp [Db.role, hnone]
  cases heffect with
  | insertOwner hcreated hnew hrow =>
    cases List.mem_singleton.mp hw
    exact spared_of_seen h.spared (habsent hnew)
  | upsertOwner hrow =>
    cases List.mem_singleton.mp hw
    exact .inr ⟨_, transfer_of_mem hmem rfl, rfl⟩
  | demoteOthers hws hall =>
    obtain ⟨x, -, row', -, heq⟩ := hws _ hw
    cases heq
    exact .inr ⟨_, transfer_of_mem hmem rfl, rfl⟩
  | insertMember hnew hthere =>
    cases List.mem_singleton.mp hw
    exact spared_of_seen h.spared (habsent hnew)
  | updateRole hpresent hold hthere hnew =>
    cases List.mem_singleton.mp hw
    exact spared_of_seen h.spared hold
  | deleteRow hpresent hold =>
    cases List.mem_singleton.mp hw
    exact spared_of_seen h.spared hold
  | insertCommunity hnew => cases List.mem_singleton.mp hw
  | _ => cases hw

theorem there_new (hlinked : Linked db) (h : Base db done t)
    (heffect : Effect limit t.vars ((store limit).seen db t) stmt v ws)
    (hneeds : Needs done stmt) {row : Option RelayMember} (hw : .member key row ∈ ws) :
    (db.communities.get? key.1).isSome ∨ ∃ row, .community key.1 row ∈ t.writes := by
  cases heffect with
  | insertOwner hcreated hnew hrow =>
    cases List.mem_singleton.mp hw
    exact .inr (h.created _ hneeds.1 hcreated)
  | @upsertOwner args row hrow =>
    cases List.mem_singleton.mp hw
    exact .inl (there_of_owner hlinked (h.expected args hneeds.1).1)
  | @demoteOthers args ws hws hall =>
    obtain ⟨x, -, row', -, heq⟩ := hws _ hw
    cases heq
    exact .inl (there_of_owner hlinked (h.expected args hneeds.1).1)
  | insertMember hnew hthere =>
    cases List.mem_singleton.mp hw
    exact communities_view hthere
  | updateRole hpresent hold hthere hnew =>
    cases List.mem_singleton.mp hw
    exact there_of_seen hlinked h.there hthere
  | deleteRow hpresent hold =>
    cases List.mem_singleton.mp hw
    obtain ⟨row, hrow⟩ := Option.isSome_iff_exists.mp hpresent
    obtain ⟨rowId, -, hcurrent⟩ := Option.bind_eq_some_iff.mp hrow
    exact there_of_seen hlinked h.there (by rw [(current_some.mp hcurrent).1]; rfl)
  | insertCommunity hnew => cases List.mem_singleton.mp hw
  | _ => cases hw

theorem fresh_new
    (heffect : Effect limit t.vars ((store limit).seen db t) stmt v ws) (hmem : stmt ∈ t.call.plan)
    {id : CommunityId} {row : Community} (hw : .community id row ∈ ws) :
    db.communities.get? id = none ∧ ∃ args, t.call = .createCommunityWithOwner args ∧
      id = args.community ∧ .insertCommunity args ∈ done ++ [stmt] := by
  cases heffect with
  | @insertCommunity args row record hnew =>
    cases List.mem_singleton.mp hw
    refine ⟨?_, args, creation_of_mem hmem rfl, rfl,
      List.mem_append_right done (List.mem_singleton.mpr rfl)⟩
    refine Option.not_isSome_iff_eq_none.mp fun hthere => ?_
    have hkept := communities_kept limit t.writes (.inl hthere)
    have hnone : ((store limit).seen db t).communities.get? args.community = none := hnew
    unfold Planned.seen at hnone
    rw [hnone] at hkept
    cases hkept
  | insertOwner hcreated hnew hrow => cases List.mem_singleton.mp hw
  | upsertOwner hrow => cases List.mem_singleton.mp hw
  | demoteOthers hws hall =>
    obtain ⟨x, -, row', -, heq⟩ := hws _ hw
    cases heq
  | insertMember hnew hthere => cases List.mem_singleton.mp hw
  | updateRole hpresent hold hthere hnew => cases List.mem_singleton.mp hw
  | deleteRow hpresent hold => cases List.mem_singleton.mp hw
  | _ => cases hw

theorem wrote_new (heffect : Effect limit t.vars seen stmt v ws) (hmem : stmt ∈ t.call.plan)
    (hneeds : Needs done stmt) (hcall : t.call = .transferOwnership args) {w : Write} (hw : w ∈ ws) :
    .upsertOwner args ∈ done ++ [stmt] := by
  have hcreation : ∀ {args'}, stmt.creation = some args' → False := by
    intro args' hstmt
    have := creation_of_mem hmem hstmt
    rw [hcall] at this
    cases this
  have htransfer : ∀ {args'}, stmt.transfer = some args' → args' = args := by
    intro args' hstmt
    have := transfer_of_mem hmem hstmt
    rw [hcall] at this
    cases this
    rfl
  have htarget : stmt.target = none := by
    rw [hcall] at hmem
    have hall : ∀ stmt ∈ (Call.transferOwnership args).plan, stmt.target = none := by
      simp [Call.plan, Sql.target]
    exact hall stmt hmem
  cases heffect with
  | insertCommunity hnew => exact (hcreation rfl).elim
  | insertOwner hcreated hnew hrow => exact (hcreation rfl).elim
  | upsertOwner hrow =>
    obtain rfl := htransfer rfl
    exact List.mem_append_right done (List.mem_singleton.mpr rfl)
  | demoteOthers hws hall =>
    obtain rfl := htransfer rfl
    exact List.mem_append_left _ hneeds.2.1
  | insertMember hnew hthere => cases htarget
  | updateRole hpresent hold hthere hnew => cases htarget
  | deleteRow hpresent hold => cases htarget
  | _ => cases hw

theorem role_before_upsert (h : Base db done t) (hcall : t.call = .transferOwnership args)
    (hbefore : .upsertOwner args ∉ done) (key : MemberKey) :
    ((store limit).seen db t).role key = db.role key := by
  rcases role_view limit db t.writes key with ⟨hsame, -⟩ | ⟨row, hmem, -⟩
  · exact hsame
  · exact absurd (h.wrote args _ hcall hmem) hbefore

end Exec

/-! ## One statement -/

section Exec

variable {done todo : List Sql} {stmt : Sql} {v : Vars} {ws : List Write}

theorem mem_plan (hplan : t.call.plan = done ++ stmt :: todo) {k : Sql} (h : k ∈ done ++ [stmt]) :
    k ∈ t.call.plan := by
  rw [hplan]
  rcases List.mem_append.mp h with h | h
  · exact List.mem_append_left _ h
  · rw [List.mem_singleton.mp h]
    exact List.mem_append_right _ List.mem_cons_self

theorem stmt_mem_plan (hplan : t.call.plan = done ++ stmt :: todo) : stmt ∈ t.call.plan :=
  mem_plan hplan (List.mem_append_right done (List.mem_singleton.mpr rfl))

theorem created_new (h : Base db done t)
    (heffect : Effect limit t.vars ((store limit).seen db t) stmt v ws)
    (hplan : t.call.plan = done ++ stmt :: todo) {args : CreateCommunity}
    (hdone : .insertCommunity args ∈ done ++ [stmt]) (hcreated : v.created = true) :
    ∃ row, .community args.community row ∈ t.writes ++ ws := by
  by_cases hstmt : ∃ args', stmt = .insertCommunity args'
  · obtain ⟨args', rfl⟩ := hstmt
    have hcall := creation_of_mem (mem_plan hplan hdone) rfl
    rw [creation_of_mem (stmt_mem_plan hplan) rfl] at hcall
    cases hcall
    cases heffect with
    | insertCommunity hnew =>
      exact ⟨_, List.mem_append_right _ (List.mem_singleton.mpr rfl)⟩
    | hostTaken => cases hcreated
  · have hne : ∀ args', stmt ≠ .insertCommunity args' := fun args' heq => hstmt ⟨args', heq⟩
    rw [created_kept heffect hne] at hcreated
    rcases List.mem_append.mp hdone with hdone | hdone
    · obtain ⟨row, hrow⟩ := h.created args hdone hcreated
      exact ⟨row, List.mem_append_left ws hrow⟩
    · exact absurd (List.mem_singleton.mp hdone).symm (hne args)

theorem locked_new (h : Base db done t)
    (heffect : Effect limit t.vars ((store limit).seen db t) stmt v ws)
    (hplan : t.call.plan = done ++ stmt :: todo) (hcall : t.call = .transferOwnership args)
    {p : String} (hp : p ∈ v.existingOwners) :
    db.role (args.community, p) = some .owner ∧ (.memberRow (args.community, p), .exclusive) ∈
      t.held ++ stmt.locks t.now t.vars ((store limit).seen db t) := by
  by_cases hstmt : ∃ args', stmt = .lockOwners args'
  · obtain ⟨args', rfl⟩ := hstmt
    have hcall' := transfer_of_mem (stmt_mem_plan hplan) rfl
    rw [hcall] at hcall'
    cases hcall'
    cases heffect with
    | lockOwners howners =>
      obtain ⟨hrole, x, hx, rfl⟩ := howners p hp
      rw [role_before_upsert h hcall (needs_of_plan hplan)] at hrole
      exact ⟨hrole, List.mem_append_right _ (List.mem_map.mpr ⟨x, hx, rfl⟩)⟩
  · rw [existingOwners_kept heffect fun args' heq => hstmt ⟨args', heq⟩] at hp
    obtain ⟨hrole, hheld⟩ := h.locked args hcall p hp
    exact ⟨hrole, List.mem_append_left _ hheld⟩

theorem Base.exec (hlinked : Linked db) (h : Base db done t)
    (heffect : Effect limit t.vars ((store limit).seen db t) stmt v ws)
    (hplan : t.call.plan = done ++ stmt :: todo)
    (rest : List (Statement Db Lock Vars Write Stopped)) :
    Base db (done ++ [stmt])
      (t.after rest (stmt.locks t.now t.vars ((store limit).seen db t)) v ws) := by
  have hmem := stmt_mem_plan hplan
  have hneeds := needs_of_plan hplan
  constructor
  · intro p hdone
    rcases List.mem_append.mp hdone with hdone | hdone
    · exact List.mem_append_left _ (h.advisory p hdone)
    · cases List.mem_singleton.mp hdone
      exact List.mem_append_right _ (List.mem_singleton.mpr rfl)
  · intro key row hw hrole
    rcases List.mem_append.mp hw with hw | hw
    · exact h.granted key row hw hrole
    · exact granted_new (t := t) heffect hmem hw hrole
  · intro key row hw
    rcases List.mem_append.mp hw with hw | hw
    · exact h.spared key row hw
    · exact spared_new (t := t) h heffect hmem hw
  · intro key row hw
    have hthere : (db.communities.get? key.1).isSome ∨ ∃ row, .community key.1 row ∈ t.writes := by
      rcases List.mem_append.mp hw with hw | hw
      · exact h.there key row hw
      · exact there_new hlinked h heffect hneeds hw
    exact hthere.imp_right fun ⟨row, hrow⟩ => ⟨row, List.mem_append_left ws hrow⟩
  · intro id row hw
    rcases List.mem_append.mp hw with hw | hw
    · obtain ⟨hnone, args, hcall, hid, hdone⟩ := h.fresh id row hw
      exact ⟨hnone, args, hcall, hid, List.mem_append_left _ hdone⟩
    · exact fresh_new heffect hmem hw
  · intro args hdone hcreated
    exact created_new h heffect hplan hdone hcreated
  · intro args w hcall hw
    rcases List.mem_append.mp hw with hw | hw
    · exact List.mem_append_left _ (h.wrote args w hcall hw)
    · exact wrote_new heffect hmem hneeds hcall hw
  · intro args hcall p hp
    exact locked_new h heffect hplan hcall hp
  · intro args hdone
    have hexpected : db.role (args.community, args.expectedOwner) = some .owner ∧
        (.memberRow (args.community, args.expectedOwner), .exclusive) ∈ t.held := by
      rcases List.mem_append.mp hdone with hdone | hdone
      · exact h.expected args hdone
      · cases List.mem_singleton.mp hdone
        cases heffect with
        | checkOwners hexpected => exact h.locked args (transfer_of_mem hmem rfl) _ hexpected
    exact ⟨hexpected.1, List.mem_append_left _ hexpected.2⟩

/-! ## A commit of another transaction -/

theorem relayMembers_held (ht : (store limit).Locked t) (hfit : conflict t.held u.held = false)
    {m : Mode} (hheld : (.memberRow key, m) ∈ u.held) :
    ((store limit).seen db t).relayMembers.get? key = db.relayMembers.get? key :=
  (memberRow limit key).read_spared (spared_of_held ht hfit hheld)

theorem role_held (ht : (store limit).Locked t) (hfit : conflict t.held u.held = false)
    {m : Mode} (hheld : (.memberRow key, m) ∈ u.held) :
    ((store limit).seen db t).role key = db.role key := by
  unfold Db.role
  rw [relayMembers_held ht hfit hheld]

theorem Base.commit (h : Base db done u) (ht : (store limit).Locked t)
    (hu : (store limit).Locked u) (hfit : conflict t.held u.held = false) :
    Base ((store limit).seen db t) done u where
  advisory := h.advisory
  granted := h.granted
  spared key row hw := by
    rw [role_held ht hfit (hu _ hw)]
    exact h.spared key row hw
  there key row hw := by
    refine (h.there key row hw).imp_left fun hthere => ?_
    exact communities_kept limit _ (.inl hthere)
  fresh id row hw := by
    have hsame : ((store limit).seen db t).communities.get? id = db.communities.get? id :=
      (communityRow limit id).read_spared (spared_of_held ht hfit (hu _ hw))
    rw [hsame]
    exact h.fresh id row hw
  created := h.created
  wrote := h.wrote
  locked args hcall p hp := by
    obtain ⟨hrole, hheld⟩ := h.locked args hcall p hp
    exact ⟨by rw [role_held ht hfit hheld]; exact hrole, hheld⟩
  expected args hdone := by
    obtain ⟨hrole, hheld⟩ := h.expected args hdone
    exact ⟨by rw [role_held ht hfit hheld]; exact hrole, hheld⟩

theorem base_fresh (limit : Nat) (db : Db) (call : Call) (now : Int) :
    Base db [] (fresh (store limit).system call now) where
  advisory _ h := absurd h List.not_mem_nil
  granted _ _ h := absurd h List.not_mem_nil
  spared _ _ h := absurd h List.not_mem_nil
  there _ _ h := absurd h List.not_mem_nil
  fresh _ _ h := absurd h List.not_mem_nil
  created _ h := absurd h List.not_mem_nil
  wrote _ _ _ h := absurd h List.not_mem_nil
  locked _ _ _ h := absurd h List.not_mem_nil
  expected _ h := absurd h List.not_mem_nil

theorem Linked.commit (hlinked : Linked db) (h : Base db done t) :
    Linked ((store limit).seen db t) := by
  intro key row hrow
  refine communities_kept limit _ ?_
  rcases relayMembers_view limit db t.writes key with ⟨hsame, -⟩ | ⟨row', hmem, -⟩
  · exact .inl (hlinked key row (hsame.symm.trans hrow))
  · exact h.there key row' hmem

theorem base_rule (limit : Nat) : PlanRule (store limit) .any (fun _ => True)
    (fun _ _ _ => True) (fun p : OwnershipPublic => Linked p.db) Base where
  advance _ _ h := h
  refuse _ _ _ h := h
  begin p call _ := base_fresh limit p.db call p.clock
  exec _ _ k _ t _ _ _ hlinked _ h hplan _ hexec :=
    h.exec hlinked (@exec_effect limit _ k t.now _ _ _ hexec) hplan _
  commit _ _ _ hlinked _ h _ _ _ := hlinked.commit h
  ownCommit _ _ _ _ _ _ _ _ _ hu hlt hlu hfit _ := hu.commit hlt hlu hfit

end Exec

end Vingilot.Communities
