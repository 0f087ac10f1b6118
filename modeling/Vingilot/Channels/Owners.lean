import Vingilot.Channels.Membership

/-!
# Every channel keeps an owner

A removal reads the role of its target and checks for other owners only when that role is owner.
It holds the membership lock by then. A creation does not take that lock, but a removal is called
only after `validate_admin_event` has read the committed channel.
-/

namespace Vingilot.Channels

open Machine Transactions

def HasOwner (db : Db) (ch : ChannelKey) : Prop :=
  ∃ pubkey, db.activeRole ch pubkey = some .owner

def Sql.readsTarget : Sql → Option RemoveMember
  | targetRole args => some args
  | _ => none

def afterCreation : PlanGuard Call Sql Db Lock Vars Write DbError where
  exec p _ stmt := ∀ args ∈ stmt.readsTarget, (p.db.channels.get? args.channel).isSome = true
  commit _ _ := True

/-! ## What a removal knows -/

def RemovalKnown (db : Db) (t : ChannelTx) : Sql → Prop
  | .targetRole args => Guarded db t args.channel ∧
    t.vars.currentRole = db.activeRole args.channel args.pubkey
  | .checkLastOwner args => Guarded db t args.channel ∧
    (db.activeRole args.channel args.pubkey = some .owner →
      OtherOwner db args.channel args.pubkey)
  | _ => True

structure OwnersOwn (db : Db) (done : List Sql) (t : ChannelTx) : Prop where
  known : ∀ stmt ∈ done, RemovalKnown db t stmt
  owner : ∀ args, .insertOwner args ∈ done → (∃ idGiven, .insertChannel args idGiven ∈ done) ∧
    (t.vars.wasCreated = true → ∃ m, .member args.channel args.createdBy m ∈ t.writes)

section Steps

variable {db : Db} {done done' : List Sql} {t u : ChannelTx} {stmt : Sql} {v' : Vars}
  {ws : List Write} {rest : List (Statement Db Lock Vars Write DbError)}
  {locks : List (Lock × Mode)}

theorem removalKnown_commit (ht : Own db done t) (hfit : conflict t.held u.held = false)
    (h : RemovalKnown db u stmt) : RemovalKnown (store.seen db t) u stmt := by
  cases stmt with
  | targetRole args =>
    obtain ⟨hguarded, hrole⟩ := h
    exact ⟨guarded_commit ht hguarded, by rw [activeRole_commit ht hfit hguarded]; exact hrole⟩
  | checkLastOwner args =>
    obtain ⟨hguarded, hother⟩ := h
    refine ⟨guarded_commit ht hguarded, ?_⟩
    rw [activeRole_commit ht hfit hguarded]
    exact fun howner => otherOwner_commit ht hfit hguarded (hother howner)
  | _ => exact h

theorem removalKnown_old {seen : Db} (heffect : Effect t.now t.vars seen stmt v' ws)
    (hneeds : Needs done stmt) {k : Sql} (hk : k ∈ done) (h : RemovalKnown db t k) :
    RemovalKnown db (t.after rest locks v' ws) k := by
  cases k with
  | targetRole args =>
    obtain ⟨hguarded, hvar⟩ := h
    refine ⟨hguarded.after, ?_⟩
    cases heffect with
    | currentRole args' => exact absurd hk (hneeds.2.2.2 args)
    | targetRole args' => exact absurd hk (hneeds.2.2.2 args)
    | _ => exact hvar
  | checkLastOwner args => exact ⟨h.1.after, h.2⟩
  | _ => trivial

theorem removalKnown_new {p : ChannelPublic} (hown : Own p.db done t)
    (howners : OwnersOwn p.db done t) (hneeds : Needs done stmt)
    (hallowed : afterCreation.exec p t stmt)
    (heffect : Effect t.now t.vars (store.seen p.db t) stmt v' ws) :
    RemovalKnown p.db (t.after rest locks v' ws) stmt := by
  cases heffect with
  | targetRole args =>
    rw [seen_of_silent hown hneeds.2.1]
    exact ⟨Guarded.after ⟨hown.known _ hneeds.1, hallowed args rfl⟩, rfl⟩
  | checkLastOwner hok =>
    obtain ⟨hguarded, hvar⟩ := howners.known _ hneeds.1
    rw [seen_of_silent hown hneeds.2] at hok
    exact ⟨hguarded.after, fun howner => otherOwner_of_count _ (hok (hvar.trans howner))⟩
  | _ => trivial

theorem owner_exec {seen : Db} (heffect : Effect t.now t.vars seen stmt v' ws)
    (hneeds : Needs done stmt) (howners : OwnersOwn db done t) {args : CreateChannel}
    (hmem : .insertOwner args ∈ done ++ [stmt]) :
    (∃ idGiven, .insertChannel args idGiven ∈ done ++ [stmt]) ∧ (v'.wasCreated = true →
      ∃ m, .member args.channel args.createdBy m ∈ (t.after rest locks v' ws).writes) := by
  rcases List.mem_append.mp hmem with hdone | hnew
  · obtain ⟨⟨idGiven, hchannel⟩, hwritten⟩ := howners.owner args hdone
    refine ⟨⟨idGiven, List.mem_append_left _ hchannel⟩, ?_⟩
    intro hcreated
    rw [wasCreated_kept heffect hneeds hchannel] at hcreated
    obtain ⟨m, hm⟩ := hwritten hcreated
    exact ⟨m, List.mem_append_left _ hm⟩
  · cases List.mem_singleton.mp hnew
    obtain ⟨idGiven, hchannel⟩ := hneeds
    refine ⟨⟨idGiven, List.mem_append_left _ hchannel⟩, ?_⟩
    intro hcreated
    cases heffect with
    | insertOwner _ => exact ⟨_, List.mem_append_right _ List.mem_cons_self⟩
    | noOwner hkept => exact absurd (hkept.symm.trans hcreated) (by simp)

end Steps

/-! ## Commits -/

variable {ch : ChannelKey} {pubkey : Bytes}

section Commit

variable {call : Call}

theorem addMember_of_mem {args : AddMember} (h : .upsertMember args ∈ call.plan) :
    call = .addMember args := by
  cases call <;> simp_all [Call.plan, creationPlan]

theorem removeMember_of_mem {args : RemoveMember} (h : .markRemoved args ∈ call.plan) :
    call = .removeMember args := by
  cases call <;> simp_all [Call.plan, creationPlan]

theorem removeMember_of_targetRole {args : RemoveMember} (h : .targetRole args ∈ call.plan) :
    call = .removeMember args := by
  cases call <;> simp_all [Call.plan, creationPlan]

theorem insertOwner_of_mem {args : CreateChannel} {idGiven : Bool}
    (h : .insertChannel args idGiven ∈ call.plan) : .insertOwner args ∈ call.plan := by
  cases call <;> simp_all [Call.plan, creationPlan]

theorem activeRole_of_membersOf {db : Db} {m : Member} (h : db.membersOf ch pubkey = some m)
    (hactive : m.removedAt = none) : db.activeRole ch pubkey = some m.role := by
  unfold Db.activeRole
  rw [h]
  simp [hactive]

variable {db : Db} {t : ChannelTx}

theorem origin_there (hown : Own db (store.plan t.call) t) {m : Member}
    (hthere : (db.channels.get? ch).isSome) (hm : .member ch pubkey m ∈ t.writes) :
    (∃ args, t.call = .addMember args ∧ args.channel = ch ∧ args.pubkey = pubkey ∧
        m.role = args.role ∧ m.removedAt = none) ∨
      ∃ args, t.call = .removeMember args ∧ args.channel = ch ∧ args.pubkey = pubkey := by
  cases hown.members ch pubkey m hm with
  | created hdone hcreating hrole hactive =>
    rw [hcreating.2.1] at hthere
    cases hthere
  | added hdone hguarded hrole hactive =>
    exact .inl ⟨_, addMember_of_mem hdone, rfl, rfl, hrole, hactive⟩
  | removed hdone hguarded hremoved => exact .inr ⟨_, removeMember_of_mem hdone, rfl, rfl⟩

theorem other_kept (hown : Own db (store.plan t.call) t) (hthere : (db.channels.get? ch).isSome)
    (hadd : ∀ args, t.call = .addMember args → args.pubkey ≠ pubkey)
    (hremove : ∀ args, t.call = .removeMember args → args.pubkey ≠ pubkey) :
    (store.seen db t).activeRole ch pubkey = db.activeRole ch pubkey := by
  unfold Db.activeRole Planned.seen
  rcases membersOf_view db t.writes ch pubkey with ⟨hsame, -⟩ | ⟨m, hm, -⟩
  · rw [hsame]
  · rcases origin_there hown hthere hm with ⟨args, hcall, -, hpubkey, -⟩ | ⟨args, hcall, -, hpubkey⟩
    · exact absurd hpubkey (hadd args hcall)
    · exact absurd hpubkey (hremove args hcall)

theorem hasOwner_created (hown : Own db (store.plan t.call) t)
    (howners : OwnersOwn db (store.plan t.call) t) {row : Channel}
    (hrow : .channel ch row ∈ t.writes) : HasOwner (store.seen db t) ch := by
  obtain ⟨hcreating, args, idGiven, hdone, rfl, hcreated⟩ := hown.channels ch row hrow
  obtain ⟨m, hm⟩ := (howners.owner args (insertOwner_of_mem hdone)).2 hcreated
  refine ⟨args.createdBy, ?_⟩
  rcases membersOf_view db t.writes args.channel args.createdBy with ⟨-, hnone⟩ | ⟨m', hm', hread⟩
  · exact absurd hm (hnone m)
  · have hnone := hcreating.2.1
    generalize hpubkey : args.createdBy = pubkey at hm' hread ⊢
    generalize args.channel = ch at hm' hread hnone ⊢
    cases hown.members ch pubkey m' hm' with
    | created hdone' hcreating' hrole hactive =>
      rw [← hrole]
      exact activeRole_of_membersOf hread hactive
    | added hdone' hguarded => exact absurd hguarded.2 (by simp [hnone])
    | removed hdone' hguarded => exact absurd hguarded.2 (by simp [hnone])

theorem hasOwner_kept (hown : Own db (store.plan t.call) t)
    (howners : OwnersOwn db (store.plan t.call) t) (hthere : (db.channels.get? ch).isSome)
    (h : HasOwner db ch) : HasOwner (store.seen db t) ch := by
  obtain ⟨owner, howner⟩ := h
  have hfar (pubkey : Bytes) (hadd : ∀ args, t.call = .addMember args → args.pubkey ≠ pubkey)
      (hremove : ∀ args, t.call = .removeMember args → args.pubkey ≠ pubkey)
      (hrole : db.activeRole ch pubkey = some .owner) : HasOwner (store.seen db t) ch :=
    ⟨pubkey, (other_kept hown hthere hadd hremove).trans hrole⟩
  rcases membersOf_view db t.writes ch owner with ⟨hsame, -⟩ | ⟨m, hm, hread⟩
  · refine ⟨owner, ?_⟩
    rw [← howner]
    unfold Db.activeRole Planned.seen
    rw [hsame]
  · rcases origin_there hown hthere hm with
      ⟨args, hcall, rfl, rfl, hrole, hactive⟩ | ⟨args, hcall, rfl, rfl⟩
    · by_cases hdemote : args.role = .owner
      · exact ⟨args.pubkey, by rw [← hdemote, ← hrole]; exact activeRole_of_membersOf hread hactive⟩
      · obtain ⟨-, hother⟩ := hown.known (.checkDemotion args) (by simp [hcall, store, Call.plan])
        obtain ⟨other, hne, hrole⟩ := hother howner hdemote
        refine hfar other ?_ ?_ hrole
        · intro args' hcall' heq
          rw [hcall] at hcall'
          cases hcall'
          exact hne heq.symm
        · intro args' hcall'
          rw [hcall] at hcall'
          cases hcall'
    · obtain ⟨-, hother⟩ := howners.known (.checkLastOwner args) (by simp [hcall, store, Call.plan])
      obtain ⟨other, hne, hrole⟩ := hother howner
      refine hfar other ?_ ?_ hrole
      · intro args' hcall'
        rw [hcall] at hcall'
        cases hcall'
      · intro args' hcall' heq
        rw [hcall] at hcall'
        cases hcall'
        exact hne heq.symm

end Commit

/-! ## Runs -/

def Owned (start db : Db) : Prop :=
  ∀ ch, start.channels.get? ch = none → (db.channels.get? ch).isSome = true → HasOwner db ch

theorem owned_commit {start db : Db} {t : ChannelTx} (h : Owned start db)
    (hown : Own db (store.plan t.call) t) (howners : OwnersOwn db (store.plan t.call) t) :
    Owned start (store.seen db t) := by
  intro ch hnew hthere
  obtain ⟨row, hrow⟩ := Option.isSome_iff_exists.mp hthere
  rcases channel_view hrow with hold | hwritten
  · have hthere : (db.channels.get? ch).isSome = true := by rw [hold]; rfl
    exact hasOwner_kept hown howners hthere (h ch hnew hthere)
  · exact hasOwner_created hown howners hwritten

theorem owners_rule (start : Db) :
    PlanRule store afterCreation (fun p => True ∧ Linked p.db)
      (fun db done t => True ∧ Own db done t) (fun p => Owned start p.db) OwnersOwn where
  advance _ _ h := h
  refuse _ _ _ h := h
  begin p call _ :=
    ⟨fun _ h => absurd h List.not_mem_nil, fun _ h => absurd h List.not_mem_nil⟩
  exec p done k todo t vars ws _ _ hown howners hplan hallowed hexec := by
    have hneeds : Needs done k := needs_of_ordered (by rw [← hplan]; exact plan_ordered t.call)
    have heffect := effect_of_exec hexec
    refine ⟨?_, fun args hmem => owner_exec heffect hneeds howners hmem⟩
    intro stmt hstmt
    rcases List.mem_append.mp hstmt with hstmt | hstmt
    · exact removalKnown_old heffect hneeds hstmt (howners.known stmt hstmt)
    · rw [List.mem_singleton.mp hstmt]
      exact removalKnown_new hown.2 howners hneeds hallowed heffect
  commit p t _ howned hown howners _ _ _ := owned_commit howned hown.2 howners
  ownCommit p t u done _ _ ht _ _ hu _ _ hfit _ :=
    ⟨fun stmt hstmt => removalKnown_commit ht.2 hfit (hu.known stmt hstmt), hu.owner⟩

/-! ### What the callers have checked -/

abbrev ChannelWorld := World Call Db Lock Vars Write DbError

/-- `validate_admin_event` has found the channel before a removal is called. -/
def Validated (s : ChannelWorld) : Action Call DbError → Prop
  | .begin (.removeMember args) => (s.pub.db.channels.get? args.channel).isSome = true
  | _ => True

instance decidableValidated (s : ChannelWorld) : ∀ a, Decidable (Validated s a)
  | .begin (.removeMember args) =>
    inferInstanceAs (Decidable ((s.pub.db.channels.get? args.channel).isSome = true))
  | .begin (.createChannel _) | .begin (.createChannelWithId _) | .begin (.addMember _)
  | .advance _ | .exec _ | .commit _ | .fail _ _ => isTrue trivial

def RemovalsValidated (s : ChannelWorld) : Prop :=
  ∀ i t args, s.txs.get? i = some t → t.call = .removeMember args →
    (s.pub.db.channels.get? args.channel).isSome = true

theorem channel_stays (db : Db) (ws : List Write) (h : (db.channels.get? ch).isSome = true) :
    ((view store.system db ws).channels.get? ch).isSome = true := by
  induction ws generalizing db with
  | nil => exact h
  | cons w ws ih =>
    refine ih _ ?_
    cases w with
    | channel key row =>
      simp only [Planned.system, store, Db.apply, Table.get?_set]
      split_ifs
      · rfl
      · exact h
    | member key pubkey row => exact h

theorem removals_step {s s' : ChannelWorld} {a : Action Call DbError} (h : RemovalsValidated s)
    (hvalidated : Validated s a) (hstep : step store.system s a = some s') :
    RemovalsValidated s' := by
  intro i t args ht hcall
  cases step_cases hstep with
  | advance micros => exact h i t args ht hcall
  | begin call =>
    simp only [Table.get?_set] at ht
    split_ifs at ht with hi
    · cases ht
      cases hcall
      exact hvalidated
    · exact h i t args ht hcall
  | exec hopen hrest hfree hexec =>
    simp only [Table.get?_set] at ht
    split_ifs at ht with hi
    · cases ht
      exact h _ _ args hopen hcall
    · exact h i t args ht hcall
  | commit hopen hrest =>
    simp only [Table.get?_remove] at ht
    split_ifs at ht with hi
    exact channel_stays _ _ (h i t args ht hcall)
  | refuse hopen hrest hexec | fail error hopen =>
    simp only [Table.get?_remove] at ht
    split_ifs at ht with hi
    exact h i t args ht hcall

theorem allows_of_validated {s : ChannelWorld} (h : RemovalsValidated s)
    (a : Action Call DbError) : (store.guard afterCreation).allows s a := by
  cases a with
  | exec tx =>
    intro t ht stmt hnext args htarget
    have hmem : stmt ∈ t.call.plan := List.mem_of_getElem? hnext
    cases stmt <;> cases htarget
    exact h tx t args ht (removeMember_of_targetRole hmem)
  | commit tx => exact fun t ht => trivial
  | _ => trivial

/-- In every run of creations, additions and removals, whose removals are called for channels
that are there, every channel that the run creates has an active owner. -/
theorem created_channel_has_owner {clock : Int} {start : Db} {as : List (Action Call DbError)}
    {s : ChannelWorld} (hlinked : Linked start)
    (hvalidated : Meets (step store.system) Validated (World.init clock start) as)
    (hrun : run (step store.system) (World.init clock start) as = some s) :
    Owned start s.pub.db := by
  have hstart : Owned start start := by
    intro ch hnew hthere
    rw [hnew] at hthere
    cases hthere
  have hmeets : Meets (step store.system) (store.guard afterCreation).allows
      (World.init clock start) as :=
    meets_of_meets RemovalsValidated (fun _ _ _ => removals_step)
      (fun _ a h _ => allows_of_validated h a) (fun _ _ _ ht => by cases ht) hvalidated
  have hrule := (membership_rule.guarded.and (owners_rule start)).rule disciplined
  exact (run_keeps_of_meets hrule (kept_init clock ⟨hlinked, hstart⟩) hmeets hrun).inv.2

/-! ## An owner leaves -/

def noChannels : Db := ⟨∅, ∅⟩

def teamChannel : ChannelKey := (1, 7)

def alice : Bytes := List.replicate 32 1

def bob : Bytes := List.replicate 32 2

def createTeam : CreateChannel := ⟨teamChannel, "team", .stream, .open_, none, alice, none⟩

def leaveTeam : RemoveMember := ⟨teamChannel, alice, alice, false⟩

def statements (tx : Nat) (call : Call) : List (Action Call DbError) :=
  List.replicate call.plan.length (.exec tx)

def ownerLeaves : List (Action Call DbError) :=
  [Action.begin (Call.createChannelWithId createTeam)] ++
    statements 0 (.createChannelWithId createTeam) ++
    [Action.commit 0, .begin (Call.addMember ⟨teamChannel, bob, .owner, some alice⟩)] ++
    statements 1 (.addMember ⟨teamChannel, bob, .owner, some alice⟩) ++
    [Action.commit 1, .begin (Call.removeMember leaveTeam)] ++
    statements 2 (.removeMember leaveTeam) ++ [Action.commit 2]

theorem created_channel_has_owner_after_leaving :
    ∃ s, run (step store.system) (World.init 0 noChannels) ownerLeaves = some s ∧
      s.pub.db.activeRole teamChannel alice = none ∧ HasOwner s.pub.db teamChannel := by
  have hrun : ((run (step store.system) (World.init 0 noChannels) ownerLeaves).any fun s =>
      (s.pub.db.channels.get? teamChannel).isSome &&
        (s.pub.db.activeRole teamChannel alice).isNone) = true := by
    decide +kernel
  have hvalidated : Meets (step store.system) Validated (World.init 0 noChannels) ownerLeaves := by
    decide +kernel
  have hlinked : Linked noChannels := fun _ _ _ h => by cases h
  obtain ⟨s, hs, hthere⟩ := (Option.any_eq_true _ _).mp hrun
  simp only [Bool.and_eq_true, Option.isNone_iff_eq_none] at hthere
  exact ⟨s, hs, hthere.2,
    created_channel_has_owner hlinked hvalidated hs teamChannel rfl hthere.1⟩

end Vingilot.Channels
