import Vingilot.Communities.Store

/-!
# What the statements on members do (`buzz-db/src/relay_members.rs`)

How rows read through writes, how many communities a pubkey owns, and one constructor for each way a
statement can go through.
-/

namespace Vingilot.Communities

open Transactions

abbrev OwnershipTx := Tx Call Db Lock Vars Write Stopped

abbrev OwnershipPublic := Public Call Db Vars Stopped

abbrev OwnershipWorld := World Call Db Lock Vars Write Stopped

variable {limit : Nat} {db seen : Db} {key : MemberKey} {t u : OwnershipTx}

/-! ## Reads through writes -/

theorem relayMembers_apply (db : Db) (w : Write) (key : MemberKey) :
    (db.apply w).relayMembers.get? key =
      match w with
      | .community _ _ => db.relayMembers.get? key
      | .member key' row => if key = key' then row else db.relayMembers.get? key := by
  match w with
  | .community _ _ => rfl
  | .member key' (some row) => exact Table.get?_set ..
  | .member key' none => exact Table.get?_remove ..

theorem relayMembers_view (limit : Nat) (db : Db) (ws : List Write) (key : MemberKey) :
    ((view (store limit).system db ws).relayMembers.get? key = db.relayMembers.get? key ∧
        ∀ row, .member key row ∉ ws) ∨
      ∃ row, .member key row ∈ ws ∧
        (view (store limit).system db ws).relayMembers.get? key = row := by
  induction ws generalizing db with
  | nil => exact .inl ⟨rfl, by simp⟩
  | cons w ws ih =>
    rcases ih (Db.apply db w) with ⟨hsame, hnone⟩ | ⟨row, hmem, hread⟩
    · rw [relayMembers_apply] at hsame
      cases w with
      | community id row => exact .inl ⟨hsame, by simpa using hnone⟩
      | member key' row =>
        simp only at hsame
        split_ifs at hsame with heq
        · subst heq
          exact .inr ⟨row, List.mem_cons_self, hsame⟩
        · refine .inl ⟨hsame, fun row' hmem => ?_⟩
          rcases List.mem_cons.mp hmem with hfirst | hrest
          · cases hfirst
            exact heq rfl
          · exact hnone row' hrest
    · exact .inr ⟨row, List.mem_cons_of_mem w hmem, hread⟩

theorem role_view (limit : Nat) (db : Db) (ws : List Write) (key : MemberKey) :
    ((view (store limit).system db ws).role key = db.role key ∧ ∀ row, .member key row ∉ ws) ∨
      ∃ row, .member key row ∈ ws ∧
        (view (store limit).system db ws).role key = row.map RelayMember.role := by
  unfold Db.role
  rcases relayMembers_view limit db ws key with ⟨hsame, hnone⟩ | ⟨row, hmem, hread⟩
  · exact .inl ⟨by rw [hsame], hnone⟩
  · exact .inr ⟨row, hmem, by rw [hread]⟩

theorem communities_view {ws : List Write} {id : CommunityId}
    (h : ((view (store limit).system db ws).communities.get? id).isSome) :
    (db.communities.get? id).isSome ∨ ∃ row, .community id row ∈ ws := by
  induction ws generalizing db with
  | nil => exact .inl h
  | cons w ws ih =>
    rcases @ih (Db.apply db w) h with hold | ⟨row, hmem⟩
    · match w with
      | .community id' row =>
        simp only [Db.apply, Table.get?_set] at hold
        split_ifs at hold with heq
        · exact .inr ⟨row, by rw [heq]; exact List.mem_cons_self⟩
        · exact .inl hold
      | .member key (some row) => exact .inl hold
      | .member key none => exact .inl hold
    · exact .inr ⟨row, List.mem_cons_of_mem w hmem⟩

theorem communities_kept (limit : Nat) (ws : List Write) {id : CommunityId}
    (h : (db.communities.get? id).isSome ∨ ∃ row, .community id row ∈ ws) :
    ((view (store limit).system db ws).communities.get? id).isSome := by
  induction ws generalizing db with
  | nil =>
    rcases h with hthere | ⟨row, hrow⟩
    · exact hthere
    · cases hrow
  | cons w ws ih =>
    refine @ih (Db.apply db w) ?_
    rcases h with hthere | ⟨row, hrow⟩
    · refine .inl ?_
      match w with
      | .community id' row =>
        simp only [Db.apply, Table.get?_set]
        split_ifs
        · rfl
        · exact hthere
      | .member key (some row) => exact hthere
      | .member key none => exact hthere
    · rcases List.mem_cons.mp hrow with rfl | hrow
      · exact .inl (by simp [Db.apply])
      · exact .inr ⟨row, hrow⟩

def memberRow (limit : Nat) (key : MemberKey) :
    Row (store limit) (.memberRow key) fun db => db.relayMembers.get? key where
  next x w :=
    match w with
    | .community _ _ => x
    | .member key' row => if key = key' then row else x
  read_apply s w := by
    refine (relayMembers_apply s w key).trans ?_
    cases w <;> rfl
  next_other x w hne := by
    cases w with
    | community id row => rfl
    | member key' row => exact if_neg fun heq => hne (by rw [heq]; rfl)

def communityRow (limit : Nat) (id : CommunityId) :
    Row (store limit) (.communityRow id) fun db => db.communities.get? id where
  next x w :=
    match w with
    | .community id' row => if id = id' then some row else x
    | .member _ _ => x
  read_apply s w := by
    match w with
    | .community id' row => exact Table.get?_set ..
    | .member key (some row) => rfl
    | .member key none => rfl
  next_other x w hne := by
    cases w with
    | community id' row => exact if_neg fun heq => hne (by rw [heq]; rfl)
    | member key row => rfl

/-! ## Owners -/

theorem mem_owners {community : CommunityId} {x : String × Nat} :
    x ∈ db.owners community ↔ ∃ row, db.relayMembers.get? (community, x.1) = some row ∧
      row.role = .owner ∧ row.rowId = x.2 := by
  simp only [Db.owners, List.mem_map, List.mem_filter, Bool.and_eq_true, beq_iff_eq]
  constructor
  · rintro ⟨⟨⟨c, p⟩, row⟩, ⟨hmem, rfl, hrole⟩, rfl⟩
    exact ⟨row, (Table.mem_toList ..).mp hmem, hrole, rfl⟩
  · rintro ⟨row, hrow, hrole, hid⟩
    exact ⟨((community, x.1), row), ⟨(Table.mem_toList ..).mpr hrow, rfl, hrole⟩, Prod.ext rfl hid⟩

theorem current_some {rowId : Nat} {row : RelayMember} :
    db.current key rowId = some row ↔ db.relayMembers.get? key = some row ∧ row.rowId = rowId := by
  simp [Db.current, Option.filter_eq_some_iff]

/-- The communities that `ownedCount` counts. -/
def Db.owned (db : Db) (pubkey : String) : List CommunityId :=
  (db.relayMembers.toList.filter fun (key, row) => key.2 == pubkey && row.role == .owner).map
    fun x => x.1.1

theorem ownedCount_eq (db : Db) (pubkey : String) :
    db.ownedCount pubkey = (db.owned pubkey).length := by
  simp [Db.ownedCount, Db.owned]

variable {pubkey : String}

theorem mem_owned {community : CommunityId} :
    community ∈ db.owned pubkey ↔ db.role (community, pubkey) = some .owner := by
  simp only [Db.owned, Db.role, List.mem_map, List.mem_filter, Bool.and_eq_true, beq_iff_eq,
    Option.map_eq_some_iff]
  constructor
  · rintro ⟨⟨⟨c, p⟩, row⟩, ⟨hmem, rfl, hrole⟩, rfl⟩
    exact ⟨row, (Table.mem_toList ..).mp hmem, hrole⟩
  · rintro ⟨row, hrow, hrole⟩
    exact ⟨((community, pubkey), row), ⟨(Table.mem_toList ..).mpr hrow, rfl, hrole⟩, rfl⟩

theorem nodup_owned (db : Db) (pubkey : String) : (db.owned pubkey).Nodup := by
  refine List.pairwise_map.mpr ((List.Pairwise.filter _ db.relayMembers.nodup_keys).imp_of_mem ?_)
  intro x y hx hy hne heq
  simp only [List.mem_filter, Bool.and_eq_true, beq_iff_eq] at hx hy
  exact hne (Prod.ext heq (hx.2.1.trans hy.2.1.symm))

theorem ownedCount_le {db' : Db}
    (h : ∀ c, db'.role (c, pubkey) = some .owner → db.role (c, pubkey) = some .owner) :
    db'.ownedCount pubkey ≤ db.ownedCount pubkey := by
  rw [ownedCount_eq, ownedCount_eq]
  refine (List.subperm_of_subset (nodup_owned db' pubkey) fun c hc => ?_).length_le
  exact mem_owned.mpr (h c (mem_owned.mp hc))

theorem ownedCount_le_succ {db' : Db} (community : CommunityId)
    (h : ∀ c, db'.role (c, pubkey) = some .owner →
      c = community ∨ db.role (c, pubkey) = some .owner) :
    db'.ownedCount pubkey ≤ db.ownedCount pubkey + 1 := by
  rw [ownedCount_eq, ownedCount_eq]
  have hsubset : db'.owned pubkey ⊆ community :: db.owned pubkey := by
    intro c hc
    rcases h c (mem_owned.mp hc) with rfl | hold
    · exact List.mem_cons_self
    · exact List.mem_cons_of_mem community (mem_owned.mpr hold)
  exact (List.subperm_of_subset (nodup_owned db' pubkey) hsubset).length_le

/-! ## What a statement can do -/

inductive Effect (limit : Nat) (v : Vars) (db : Db) : Sql → Vars → List Write → Prop
  | lockRecipient (pubkey : String) : Effect limit v db (.lockRecipient pubkey) v []
  | insertCommunity {args : CreateCommunity} {row : Community} {record : CommunityId × String}
      (hnew : db.communities.get? args.community = none) :
      Effect limit v db (.insertCommunity args) { v with created := true, record := some record }
        [.community args.community row]
  | hostTaken {args : CreateCommunity} :
      Effect limit v db (.insertCommunity args) { v with created := false } []
  | countForCreate {args : CreateCommunity}
      (hcount : v.created = true → db.ownedCount args.owner < limit) :
      Effect limit v db (.countForCreate args) v []
  | insertOwner {args : CreateCommunity} {row : RelayMember} (hcreated : v.created = true)
      (hnew : db.relayMembers.get? (args.community, args.owner) = none)
      (hrole : row.role = .owner) :
      Effect limit v db (.insertOwner args) v [.member (args.community, args.owner) (some row)]
  | insertNoOwner {args : CreateCommunity} (hcreated : v.created = false) :
      Effect limit v db (.insertOwner args) v []
  | readExisting {args : CreateCommunity} {record : Option (CommunityId × String)} :
      Effect limit v db (.readExisting args) { v with record } []
  | readOwners {args : TransferOwnership} {candidates : List (String × Nat)} :
      Effect limit v db (.readOwners args) { v with candidates } []
  | lockOwners {args : TransferOwnership} {existingOwners : List String}
      (howners : ∀ p ∈ existingOwners, db.role (args.community, p) = some .owner ∧
        ∃ x ∈ db.present args.community v.candidates, x.1 = p) :
      Effect limit v db (.lockOwners args) { v with existingOwners } []
  | checkOwners {args : TransferOwnership} {previousOwner : Option String}
      (hexpected : args.expectedOwner ∈ v.existingOwners) :
      Effect limit v db (.checkOwners args) { v with previousOwner } []
  | countForTransfer {args : TransferOwnership} (hcount : db.ownedCount args.pubkey < limit) :
      Effect limit v db (.countForTransfer args) v []
  | upsertOwner {args : TransferOwnership} {row : RelayMember} (hrole : row.role = .owner) :
      Effect limit v db (.upsertOwner args) v [.member (args.community, args.pubkey) (some row)]
  | readOthers {args : TransferOwnership} :
      Effect limit v db (.readOthers args)
        { v with others := (db.owners args.community).filter fun x => x.1 ≠ args.pubkey } []
  | demoteOthers {args : TransferOwnership} {ws : List Write}
      (hws : ∀ w ∈ ws, ∃ x ∈ db.present args.community v.others, ∃ row : RelayMember,
        row.role = .member ∧ w = .member (args.community, x.1) (some row))
      (hall : ∀ x ∈ v.others, ∀ row, db.current (args.community, x.1) x.2 = some row →
        row.role = .owner → ∃ row', .member (args.community, x.1) row' ∈ ws) :
      Effect limit v db (.demoteOthers args) v ws
  | insertMember {key : MemberKey} {role : AssignableRole} {addedBy : Option String} {rowId : Nat}
      (hnew : db.relayMembers.get? key = none) (hthere : (db.communities.get? key.1).isSome) :
      Effect limit v db (.insertMember key role addedBy rowId) { v with affected := true }
        [.member key (some ⟨role.1, addedBy, rowId⟩)]
  | alreadyMember {key : MemberKey} {role : AssignableRole} {addedBy : Option String}
      {rowId : Nat} :
      Effect limit v db (.insertMember key role addedBy rowId) { v with affected := false } []
  | matchRow {key : MemberKey} {test : RoleTest} {matched : Option Nat} :
      Effect limit v db (.matchRow key test) { v with matched } []
  | deleteRow {key : MemberKey} {test : RoleTest}
      (hpresent : (v.matched.bind (db.current key)).isSome) (hrole : db.role key ≠ some .owner) :
      Effect limit v db (.deleteRow key test) { v with affected := true } [.member key none]
  | deleteNoRow {key : MemberKey} {test : RoleTest} :
      Effect limit v db (.deleteRow key test) { v with affected := false } []
  | updateRole {key : MemberKey} {newRole : AssignableRole} {row : RelayMember}
      (hpresent : (v.matched.bind (db.current key)).isSome) (hrole : db.role key ≠ some .owner)
      (hthere : (db.relayMembers.get? key).isSome) (hnew : row.role = newRole.1) :
      Effect limit v db (.updateRole key newRole) { v with affected := true }
        [.member key (some row)]
  | updateNoRow {key : MemberKey} {newRole : AssignableRole} :
      Effect limit v db (.updateRole key newRole) { v with affected := false } []
  | removalResult (key : MemberKey) (test : RoleTest) :
      Effect limit v db (.removalResult key test) v []

theorem RoleTest.not_owner {test : RoleTest} {role : Role} (h : test.holds role = true) :
    role ≠ .owner := by
  cases test with
  | notOwner => simpa [RoleTest.holds] using h
  | is expected =>
    obtain rfl : role = expected.1 := by simpa [RoleTest.holds] using h
    exact expected.2

theorem writeRow_cases (v : Vars) (db : Db) (key : MemberKey) (test : RoleTest)
    (new : RelayMember → Option RelayMember) :
    v.writeRow db key test new = ({ v with affected := false }, []) ∨
      ∃ row, v.writeRow db key test new = ({ v with affected := true }, [.member key (new row)]) ∧
        db.relayMembers.get? key = some row ∧ row.role ≠ .owner ∧
        (v.matched.bind (db.current key)).isSome := by
  unfold Vars.writeRow
  cases hfound : (v.matched.bind (db.current key)).filter fun row => test.holds row.role with
  | none => exact .inl rfl
  | some row =>
    obtain ⟨hrow, htest⟩ := Option.filter_eq_some_iff.mp hfound
    obtain ⟨rowId, -, hcurrent⟩ := Option.bind_eq_some_iff.mp hrow
    exact .inr ⟨row, rfl, (current_some.mp hcurrent).1, RoleTest.not_owner htest,
      by rw [hrow]; rfl⟩

theorem checkOwners_ok {args : TransferOwnership} {v v' : Vars}
    (h : checkOwners args v = .ok v') :
    args.expectedOwner ∈ v.existingOwners ∧ ∃ previousOwner, v' = { v with previousOwner } := by
  unfold checkOwners at h
  split_ifs at h with hnone hexpected
  · cases h; exact ⟨hexpected, _, rfl⟩
  · cases h; exact ⟨hexpected, _, rfl⟩

theorem role_of_get {row : RelayMember} (h : db.relayMembers.get? key = some row) :
    db.role key = some row.role := by
  rw [Db.role, h]
  rfl

theorem exec_effect {stmt : Sql} {now : Int} {v v' : Vars} {ws : List Write}
    (h : stmt.exec limit now v db = .ok (v', ws)) : Effect limit v db stmt v' ws := by
  cases stmt with
  | lockRecipient pubkey => cases h; exact .lockRecipient pubkey
  | insertCommunity args =>
    simp only [Sql.exec] at h
    split_ifs at h with htaken hid
    · cases h; exact .hostTaken
    · cases h; exact .insertCommunity (Option.not_isSome_iff_eq_none.mp hid)
  | countForCreate args =>
    simp only [Sql.exec] at h
    split_ifs at h with hcount
    cases h
    exact .countForCreate fun hcreated => Nat.lt_of_not_le fun hle => hcount ⟨hcreated, hle⟩
  | insertOwner args =>
    simp only [Sql.exec] at h
    split_ifs at h with hcreated hthere
    · cases h; exact .insertOwner hcreated (Option.not_isSome_iff_eq_none.mp hthere) rfl
    · cases h; exact .insertNoOwner (by simpa using hcreated)
  | readExisting args =>
    simp only [Sql.exec] at h
    split_ifs at h with hcreated
    · cases h; exact .readExisting
    · split at h
      · cases h; exact .readExisting
      · cases h
  | readOwners args => cases h; exact .readOwners
  | lockOwners args =>
    cases h
    refine .lockOwners fun p hp => ?_
    obtain ⟨x, hx, rfl⟩ := List.mem_map.mp hp
    obtain ⟨hmem, howner⟩ := List.mem_filter.mp hx
    obtain ⟨row, hcurrent, hrole⟩ := (Option.any_eq_true _ _).mp howner
    refine ⟨?_, x, List.mem_filter.mpr ⟨hmem, by rw [hcurrent]; rfl⟩, rfl⟩
    rw [role_of_get (current_some.mp hcurrent).1, eq_of_beq hrole]
  | checkOwners args =>
    simp only [Sql.exec] at h
    cases hcheck : checkOwners args v with
    | error e => rw [hcheck] at h; cases h
    | ok v'' =>
      rw [hcheck] at h
      cases h
      obtain ⟨hexpected, previousOwner, rfl⟩ := checkOwners_ok hcheck
      exact .checkOwners hexpected
  | countForTransfer args =>
    simp only [Sql.exec] at h
    split_ifs at h with hcount
    cases h
    exact .countForTransfer (Nat.lt_of_not_le hcount)
  | upsertOwner args =>
    cases h
    refine .upsertOwner ?_
    unfold ownerRow
    split <;> rfl
  | readOthers args => cases h; exact .readOthers
  | demoteOthers args =>
    cases h
    refine .demoteOthers (fun w hw => ?_) fun x hx row hrow hrole => ?_
    · obtain ⟨x, hx, hsome⟩ := List.mem_filterMap.mp hw
      obtain ⟨row, hrow, rfl⟩ := Option.map_eq_some_iff.mp hsome
      have hcurrent := (Option.filter_eq_some_iff.mp hrow).1
      exact ⟨x, List.mem_filter.mpr ⟨hx, by rw [hcurrent]; rfl⟩, _, rfl, rfl⟩
    · refine ⟨some { row with role := .member }, List.mem_filterMap.mpr ⟨x, hx, ?_⟩⟩
      simp [hrow, hrole, Option.filter]
  | insertMember key role addedBy rowId =>
    simp only [Sql.exec] at h
    split_ifs at h with hthere hcommunity
    · cases h; exact .alreadyMember
    · cases h
      exact .insertMember (Option.not_isSome_iff_eq_none.mp hthere)
        (Option.isSome_iff_ne_none.mpr fun hnone => hcommunity (by rw [hnone]; rfl))
  | matchRow key test => cases h; exact .matchRow
  | deleteRow key test =>
    have h : v.writeRow db key test (fun _ => none) = (v', ws) := Except.ok.inj h
    rcases writeRow_cases v db key test fun _ => none with hnone | ⟨row, hsome, hrow, hrole, hpresent⟩
    · rw [hnone] at h; cases h; exact .deleteNoRow
    · rw [hsome] at h
      cases h
      exact .deleteRow hpresent (by rw [role_of_get hrow]; simpa using hrole)
  | updateRole key newRole =>
    have h : v.writeRow db key .notOwner (fun row => some { row with role := newRole.1 }) =
      (v', ws) := Except.ok.inj h
    rcases writeRow_cases v db key .notOwner fun row => some { row with role := newRole.1 } with
      hnone | ⟨row, hsome, hrow, hrole, hpresent⟩
    · rw [hnone] at h; cases h; exact .updateNoRow
    · rw [hsome] at h
      cases h
      exact .updateRole hpresent (by rw [role_of_get hrow]; simpa using hrole)
        (by rw [hrow]; rfl) rfl
  | removalResult key test =>
    simp only [Sql.exec] at h
    split_ifs at h with haffected
    · cases h; exact .removalResult key test
    · split at h <;> cases h

theorem disciplined (limit : Nat) : (store limit).Disciplined := by
  intro k now v s v' ws h w hw
  have h : k.exec limit now v s = .ok (v', ws) := h
  cases exec_effect h with
  | insertCommunity hnew =>
    cases List.mem_singleton.mp hw
    simp only [Sql.exec] at h
    split_ifs at h with htaken
    · cases h
    · simp [store, Sql.locks, htaken, Write.lock]
  | insertOwner hcreated hnew hrole =>
    cases List.mem_singleton.mp hw
    simp [store, Sql.locks, hcreated, Write.lock]
  | upsertOwner hrole =>
    cases List.mem_singleton.mp hw
    simp [store, Sql.locks, Write.lock]
  | demoteOthers hws hall =>
    obtain ⟨x, hx, row, -, rfl⟩ := hws w hw
    exact List.mem_map.mpr ⟨x, hx, rfl⟩
  | insertMember hnew hthere =>
    cases List.mem_singleton.mp hw
    simp [store, Sql.locks, hnew, Write.lock]
  | deleteRow hpresent hrole =>
    cases List.mem_singleton.mp hw
    simp [store, Sql.locks, hpresent, Write.lock]
  | updateRole hpresent hrole hthere hnew =>
    cases List.mem_singleton.mp hw
    simp [store, Sql.locks, hpresent, Write.lock]
  | _ => cases hw

end Vingilot.Communities
