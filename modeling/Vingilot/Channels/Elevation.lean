import Vingilot.Channels.Owners

/-!
# Who makes somebody an owner or an admin

`add_member` lets the creator of a private channel add itself without asking whether anybody is a
member. A creator who was removed comes back as owner that way.
-/

namespace Vingilot.Channels

open Machine Transactions

def Elevates (before after : Db) (ch : ChannelKey) (pubkey : Bytes) : Prop :=
  ∃ role, role.isElevated = true ∧ after.activeRole ch pubkey = some role ∧
    before.activeRole ch pubkey ≠ some role

def Bootstrap (db : Db) (ch : ChannelKey) (pubkey : Bytes) : Prop :=
  (∀ other, db.activeRole ch other = none) ∧ db.membersOf ch pubkey = none

def Authorised (db : Db) (call : Call) (ch : ChannelKey) (pubkey : Bytes) : Prop :=
  (∃ args, call = .addMember args ∧ args.channel = ch ∧ InviterElevated db args) ∨
    Bootstrap db ch pubkey

/-- The creator of a private channel that others are active in, or that it was removed from, adds
itself with an elevated role. -/
def CreatorReturns (db : Db) : Call → Prop
  | .addMember args =>
    (∃ row, db.channels.get? args.channel = some row ∧ CreatorAddsSelf args row) ∧
      args.role.isElevated = true ∧ db.activeRole args.channel args.pubkey = none ∧
      ((∃ other role, db.activeRole args.channel other = some role) ∨
        (db.membersOf args.channel args.pubkey).isSome = true)
  | _ => False

def ElevatesByRight (s : World Call Db Lock Vars Write DbError) (a : Action Call DbError) : Prop :=
  ∀ s', step store.system s a = some s' →
    ∀ ch pubkey, Elevates s.pub.db s'.pub.db ch pubkey →
      ∃ tx t, a = .commit tx ∧ s.txs.get? tx = some t ∧ Authorised s.pub.db t.call ch pubkey

def noCreatorReturns : PlanGuard Call Sql Db Lock Vars Write DbError where
  exec _ _ _ := True
  commit p t := ¬ CreatorReturns p.db t.call

theorem not_elevates_self {db : Db} {ch : ChannelKey} {pubkey : Bytes} :
    ¬ Elevates db db ch pubkey := by
  rintro ⟨role, -, hafter, hbefore⟩
  exact hbefore hafter

/-! ## One commit -/

variable {args : AddMember}

section Commit

variable {db : Db} {t : ChannelTx} {ch : ChannelKey} {pubkey : Bytes}

theorem bootstrap_of_absent (hlinked : Linked db) (h : db.channels.get? ch = none) :
    Bootstrap db ch pubkey := by
  have hnone (other : Bytes) : db.membersOf ch other = none := by
    by_contra hsome
    obtain ⟨m, hm⟩ := Option.ne_none_iff_exists'.mp hsome
    have hthere := hlinked ch other m hm
    rw [h] at hthere
    cases hthere
  refine ⟨?_, hnone pubkey⟩
  intro other
  unfold Db.activeRole
  rw [hnone other]
  rfl

theorem elevates_cases (hlinked : Linked db) (hown : Own db (store.plan t.call) t)
    (h : Elevates db (store.seen db t) ch pubkey) :
    Bootstrap db ch pubkey ∨
      ∃ args, t.call = .addMember args ∧ args.channel = ch ∧ args.pubkey = pubkey ∧
        args.role.isElevated = true ∧ db.activeRole ch pubkey ≠ some args.role := by
  obtain ⟨role, helevated, hafter, hbefore⟩ := h
  rcases membersOf_view db t.writes ch pubkey with ⟨hsame, -⟩ | ⟨m, hm, hread⟩
  · refine absurd ?_ hbefore
    rw [← hafter]
    unfold Db.activeRole Planned.seen
    rw [hsame]
  · cases hown.members ch pubkey m hm with
    | created hdone hcreating => exact .inl (bootstrap_of_absent hlinked hcreating.2.1)
    | added hdone hguarded hrole hactive =>
      refine .inr ⟨_, addMember_of_mem hdone, rfl, rfl, ?_⟩
      rw [Planned.seen, activeRole_of_membersOf hread hactive, hrole] at hafter
      cases hafter
      exact ⟨helevated, hbefore⟩
    | removed hdone hguarded hremoved =>
      unfold Db.activeRole Planned.seen at hafter
      rw [hread] at hafter
      simp [Option.ne_none_iff_isSome.mpr hremoved] at hafter

theorem activeRole_added (hown : Own db (store.plan t.call) t) (hcall : t.call = .addMember args) :
    (store.seen db t).activeRole args.channel args.pubkey = some args.role := by
  obtain ⟨m, hm⟩ := hown.added args (by simp [hcall, store, Call.plan])
  obtain ⟨hguarded, -⟩ := hown.known (.getChannel args) (by simp [hcall, store, Call.plan])
  rcases membersOf_view db t.writes args.channel args.pubkey with ⟨-, hnone⟩ | ⟨m', hm', hread⟩
  · exact absurd hm (hnone m)
  · rcases origin_there hown hguarded.2 hm' with ⟨args', hcall', -, -, hrole, hactive⟩ |
      ⟨args', hcall', -⟩
    · rw [hcall] at hcall'
      cases hcall'
      rw [← hrole]
      exact activeRole_of_membersOf hread hactive
    · rw [hcall] at hcall'
      cases hcall'

theorem authorised_of_creator_away (hlinked : Linked db) (hown : Own db (store.plan t.call) t)
    (haway : ¬ CreatorReturns db t.call) (h : Elevates db (store.seen db t) ch pubkey) :
    Authorised db t.call ch pubkey := by
  rcases elevates_cases hlinked hown h with
    hfirst | ⟨args, hcall, rfl, rfl, helevated, hchanged⟩
  · exact .inr hfirst
  · obtain ⟨hguarded, row, hrow, hgrant⟩ :=
      hown.known (.authorizeRole args) (by simp [hcall, store, Call.plan])
    obtain ⟨-, hchange⟩ := hown.known (.authorizeChange args) (by simp [hcall, store, Call.plan])
    rcases hgrant with hplain | hinviter | hcreator
    · rw [hplain] at helevated
      cases helevated
    · exact .inl ⟨args, hcall, rfl, hinviter⟩
    · -- The creator adds itself: it is active, or nothing stands in its way.
      cases hactive : db.activeRole args.channel args.pubkey with
      | some r =>
        rw [hactive] at hchanged
        exact .inl ⟨args, hcall, rfl, hchange r hactive fun heq => hchanged (by rw [heq])⟩
      | none =>
        rw [hcall] at haway
        have hfirst : ¬ ((∃ other role, db.activeRole args.channel other = some role) ∨
            (db.membersOf args.channel args.pubkey).isSome = true) := fun hmember =>
          haway ⟨⟨row, hrow, hcreator⟩, helevated, hactive, hmember⟩
        rw [not_or] at hfirst
        refine .inr ⟨?_, by simpa using hfirst.2⟩
        intro other
        by_contra hsome
        obtain ⟨role, hrole⟩ := Option.ne_none_iff_exists'.mp hsome
        exact hfirst.1 ⟨other, role, hrole⟩

theorem not_authorised_of_creatorReturns (h : CreatorReturns db (.addMember args)) :
    ¬ Authorised db (.addMember args) args.channel args.pubkey := by
  obtain ⟨⟨row, -, -, hinvited, -⟩, -, hinactive, hmember⟩ := h
  rintro (⟨args', hcall, -, inviter, role, hinviter, hrole, -⟩ | ⟨hempty, hnever⟩)
  · cases hcall
    rw [hinvited] at hinviter
    cases hinviter
    rw [hinactive] at hrole
    cases hrole
  · rcases hmember with ⟨other, role, hrole⟩ | hremoved
    · rw [hempty other] at hrole
      cases hrole
    · rw [hnever] at hremoved
      cases hremoved

theorem elevates_of_creatorReturns (hown : Own db (store.plan t.call) t)
    (hcall : t.call = .addMember args) (h : CreatorReturns db (.addMember args)) :
    Elevates db (store.seen db t) args.channel args.pubkey := by
  obtain ⟨-, helevated, hinactive, -⟩ := h
  refine ⟨args.role, helevated, activeRole_added hown hcall, ?_⟩
  rw [hinactive]
  simp

theorem commit_by_right_iff (hlinked : Linked db) (hown : Own db (store.plan t.call) t) :
    (∀ ch pubkey, Elevates db (store.seen db t) ch pubkey → Authorised db t.call ch pubkey) ↔
      ¬ CreatorReturns db t.call := by
  constructor
  · intro hright hreturns
    cases hcall : t.call with
    | addMember args =>
      rw [hcall] at hreturns
      have hauthorised := hright _ _ (elevates_of_creatorReturns hown hcall hreturns)
      rw [hcall] at hauthorised
      exact not_authorised_of_creatorReturns hreturns hauthorised
    | _ =>
      rw [hcall] at hreturns
      exact hreturns
  · intro haway ch pubkey helevates
    exact authorised_of_creator_away hlinked hown haway helevates

end Commit

/-! ## Runs -/

theorem elevatesByRight_iff {s s' : World Call Db Lock Vars Write DbError}
    {a : Action Call DbError} (hkept : Kept (fun p => Linked p.db) (Open store Own) s)
    (hstep : step store.system s a = some s') :
    ElevatesByRight s a ↔ (store.guard noCreatorReturns).allows s a := by
  cases a with
  | commit tx =>
    obtain ⟨t, hopen, hrest, hpub⟩ := step_commit hstep
    obtain ⟨-, -, hown⟩ := (hkept.own tx t hopen).finished hrest
    have hdb : s'.pub.db = store.seen s.pub.db t := by rw [hpub]; rfl
    have hiff := commit_by_right_iff hkept.inv hown
    constructor
    · intro hright t' ht'
      cases hopen.symm.trans ht'
      refine hiff.mp ?_
      intro ch pubkey helevates
      rw [← hdb] at helevates
      obtain ⟨tx', t', htx, hopen', hauthorised⟩ := hright s' hstep ch pubkey helevates
      cases htx
      cases hopen.symm.trans hopen'
      exact hauthorised
    · intro hallowed s₁ hstep₁ ch pubkey helevates
      cases hstep.symm.trans hstep₁
      rw [hdb] at helevates
      exact ⟨tx, t, rfl, hopen, hiff.mpr (hallowed t hopen) ch pubkey helevates⟩
  | _ =>
    have hsame : s'.pub.db = s.pub.db := step_db hstep (by simp)
    refine iff_of_true ?_ ?_
    · intro s₁ hstep₁ ch pubkey helevates
      cases hstep.symm.trans hstep₁
      rw [hsame] at helevates
      exact absurd helevates not_elevates_self
    · first | trivial | exact fun _ _ _ _ => trivial

/-- In a run, every role is elevated by right exactly when no creator of a private channel comes
back by itself. -/
theorem elevated_by_right_iff {clock : Int} {start : Db} {as : List (Action Call DbError)}
    {s : World Call Db Lock Vars Write DbError} (hlinked : Linked start)
    (hrun : run (step store.system) (World.init clock start) as = some s) :
    Meets (step store.system) ElevatesByRight (World.init clock start) as ↔
      Meets (step store.system) (store.guard noCreatorReturns).allows
        (World.init clock start) as := by
  have hrule := membership_rule.always disciplined
  refine meets_congr (Kept (fun p => Linked p.db) (Open store Own)) ?_ ?_
    (kept_init clock hlinked) hrun
  · intro s a s' hkept hstep
    exact (step_cases hstep).kept hrule (Guard.any_allows s a) hkept
  · intro s a s' hkept hstep
    exact elevatesByRight_iff hkept hstep

def Call.byAnother : Call → Bool
  | addMember args => args.invitedBy != some args.pubkey
  | _ => true

theorem not_creatorReturns_of_byAnother {db : Db} {call : Call} (h : call.byAnother = true) :
    ¬ CreatorReturns db call := by
  cases call with
  | addMember args =>
    rintro ⟨⟨row, -, -, hinvited, -⟩, -⟩
    simp [Call.byAnother, hinvited] at h
  | _ => exact id

def byAnother : PlanGuard Call Sql Db Lock Vars Write DbError where
  exec _ _ _ := True
  commit _ t := t.call.byAnother = true

instance decidableByAnotherExec (p : ChannelPublic) (t : ChannelTx) (stmt : Sql) :
    Decidable (byAnother.exec p t stmt) :=
  isTrue trivial

instance decidableByAnotherCommit (p : ChannelPublic) (t : ChannelTx) :
    Decidable (byAnother.commit p t) :=
  inferInstanceAs (Decidable (t.call.byAnother = true))

theorem byAnother_allows {s : World Call Db Lock Vars Write DbError} {a : Action Call DbError}
    (h : (store.guard byAnother).allows s a) : (store.guard noCreatorReturns).allows s a := by
  cases a with
  | commit tx => exact fun t ht => not_creatorReturns_of_byAnother (h t ht)
  | exec tx => exact fun _ _ _ _ => trivial
  | _ => trivial

theorem elevated_by_right_when_handed_over :
    ∃ s, run (step store.system) (World.init 0 noChannels) ownerLeaves = some s ∧
      s.pub.db.activeRole teamChannel bob = some .owner ∧
      Meets (step store.system) ElevatesByRight (World.init 0 noChannels) ownerLeaves := by
  have hrun : ((run (step store.system) (World.init 0 noChannels) ownerLeaves).any fun s =>
      s.pub.db.activeRole teamChannel bob == some .owner) = true := by
    decide +kernel
  have hmeets : Meets (step store.system) (store.guard byAnother).allows
      (World.init 0 noChannels) ownerLeaves := by
    decide +kernel
  have hlinked : Linked noChannels := fun _ _ _ h => by cases h
  obtain ⟨s, hs, hbob⟩ := (Option.any_eq_true _ _).mp hrun
  exact ⟨s, hs, by simpa using hbob,
    (elevated_by_right_iff hlinked hs).mpr (meets_imp (fun _ _ => byAnother_allows) hmeets)⟩

/-! ## A creator comes back -/

def createPrivate : CreateChannel := { createTeam with visibility := .private_ }

def creatorReturns : AddMember := ⟨teamChannel, alice, .owner, some alice⟩

def beforeReturn : List (Action Call DbError) :=
  [Action.begin (Call.createChannelWithId createPrivate)] ++
    statements 0 (.createChannelWithId createPrivate) ++
    [Action.commit 0, .begin (Call.addMember ⟨teamChannel, bob, .owner, some alice⟩)] ++
    statements 1 (.addMember ⟨teamChannel, bob, .owner, some alice⟩) ++
    [Action.commit 1, .begin (Call.removeMember ⟨teamChannel, alice, bob, false⟩)] ++
    statements 2 (.removeMember ⟨teamChannel, alice, bob, false⟩) ++
    [Action.commit 2, .begin (Call.addMember creatorReturns)] ++
    statements 3 (.addMember creatorReturns)

theorem removed_creator_elevates_itself :
    ∃ as s, run (step store.system) (World.init 0 noChannels) as = some s ∧
      ¬ Meets (step store.system) ElevatesByRight (World.init 0 noChannels) as := by
  have hrun : ((run (step store.system) (World.init 0 noChannels) beforeReturn).any fun s =>
      (s.txs.get? 3).any (fun t => t.call == .addMember creatorReturns) &&
      s.pub.db.activeRole teamChannel alice == none &&
      s.pub.db.activeRole teamChannel bob == some .owner &&
      (step store.system s (.commit 3)).any fun s' =>
        s'.pub.db.activeRole teamChannel alice == some .owner) = true := by
    decide +kernel
  obtain ⟨s, hs, hfacts⟩ := (Option.any_eq_true _ _).mp hrun
  simp only [Bool.and_eq_true, beq_iff_eq, Option.any_eq_true] at hfacts
  obtain ⟨⟨⟨⟨t, hopen, hcall⟩, hremoved⟩, hbob⟩, s', hstep, hback⟩ := hfacts
  refine ⟨beforeReturn ++ [Action.commit 3], s', ?_, ?_⟩
  · exact run_append_some.mpr ⟨s, hs, run_cons_some.mpr ⟨s', hstep, rfl⟩⟩
  · intro hmeets
    have hright := ((meets_append.mp hmeets).2 s hs).1
    obtain ⟨tx, t', htx, hopen', hauthorised⟩ := hright s' hstep teamChannel alice
      ⟨.owner, rfl, hback, by rw [hremoved]; simp⟩
    cases htx
    cases hopen.symm.trans hopen'
    rw [hcall] at hauthorised
    rcases hauthorised with ⟨args, hargs, -, inviter, role, hinviter, hrole, -⟩ | ⟨hempty, -⟩
    · cases hargs
      cases hinviter
      rw [show creatorReturns.channel = teamChannel from rfl, hremoved] at hrole
      cases hrole
    · rw [hempty bob] at hbob
      cases hbob

end Vingilot.Channels
