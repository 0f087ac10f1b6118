import Vingilot.Invites.Store

/-!
# An invite pays for the members it brings, and for nobody else

The row of the invite is locked from the first statement on, and the key of a new member
from its insert on. So what a claim has found still holds when it commits, and a commit
either inserts a member and counts one use, or does neither.
-/

namespace Vingilot.Invites

open Transactions Machine

abbrev ClaimTx := Tx Claim Db Lock Vars Write Stopped

abbrev ClaimPublic := Public Claim Db Vars Stopped

abbrev ClaimWorld := World Claim Db Lock Vars Write Stopped

/-! ## Rows under their locks -/

def inviteRow (key : InviteKey) :
    Row store (Lock.invite key) (fun db : Db => db.relayInvites.get? key) where
  next row w :=
    match w with
    | .useCount other n => if other = key then row.map fun row => { row with useCount := n } else row
    | _ => row
  read_apply db w := by
    cases w with
    | useCount other n =>
      simp only [store, Db.apply, Table.get?_alter, eq_comm]
      split_ifs with h
      · subst h
        rfl
      · rfl
    | _ => rfl
  next_other row w h := by
    cases w with
    | useCount other n =>
      have hne : other ≠ key := fun heq => h (congrArg Lock.invite heq)
      simp only [if_neg hne]
    | _ => rfl

def memberRow (key : MemberKey) :
    Row store (Lock.member key) (fun db : Db => db.relayMembers.get? key) where
  next row w :=
    match w with
    | .member other => if other = key then some ⟨"member", some "invite"⟩ else row
    | _ => row
  read_apply db w := by
    cases w with
    | member other =>
      simp only [store, Db.apply, Table.get?_set, eq_comm]
    | _ => rfl
  next_other row w h := by
    cases w with
    | member other =>
      have hne : other ≠ key := fun heq => h (congrArg Lock.member heq)
      simp only [if_neg hne]
    | _ => rfl

def acceptanceRow (key : MemberKey) (version : String) :
    Row store (Lock.acceptance key version) (fun db : Db => db.acceptances.get? (key, version)) where
  next row w :=
    match w with
    | .acceptance other v => if other = key ∧ v = version then some () else row
    | _ => row
  read_apply db w := by
    cases w with
    | acceptance other v =>
      simp only [store, Db.apply, Table.get?_set, Prod.mk.injEq, eq_comm]
    | _ => rfl
  next_other row w h := by
    cases w with
    | acceptance other v =>
      have hne : ¬ (other = key ∧ v = version) := fun heq => h (by rw [heq.1, heq.2]; rfl)
      simp only [if_neg hne]
    | _ => rfl

theorem isSome_member_view (db : Db) (ws : List Write) (key : MemberKey)
    (h : (db.relayMembers.get? key).isSome) :
    ((view store.system db ws).relayMembers.get? key).isSome := by
  rw [(memberRow key).read_view]
  revert h
  generalize db.relayMembers.get? key = row
  induction ws generalizing row with
  | nil => exact id
  | cons w ws ih =>
    intro h
    refine ih _ ?_
    cases w with
    | member other =>
      simp only [memberRow]
      split_ifs
      · rfl
      · exact h
    | _ => exact h

/-! ## What an open claim has found -/

structure Held (db : Db) (t : ClaimTx) (key : InviteKey) (row : Invite) : Prop where
  found : db.relayInvites.get? key = some row
  asked : key.1 = t.call.community ∧ row.tokenHash = t.call.tokenHash
  lock : (Lock.invite key, Mode.exclusive) ∈ t.held
  live : t.call.now < row.expiresAt

def Room (row : Invite) : Prop := ∀ maxUses, row.maxUses = some maxUses → row.useCount < maxUses

structure Settled (db : Db) (t : ClaimTx) (row : Invite) (inserted : Bool) : Prop where
  new : inserted = true → Room row ∧ db.relayMembers.get? t.call.member = none ∧
    (Lock.member t.call.member, Mode.exclusive) ∈ t.held
  old : inserted = false → (db.relayMembers.get? t.call.member).isSome

def memberWrites (c : Claim) (inserted : Bool) : List Write :=
  if inserted then [.member c.member] else []

def acceptanceWrites (c : Claim) : List Write :=
  match c.policyVersion with
  | some version => [.acceptance c.member version]
  | none => []

def useWrites (key : InviteKey) (row : Invite) (inserted : Bool) : List Write :=
  if inserted then [.useCount key (row.useCount + 1)] else []

inductive Stage (db : Db) (t : ClaimTx) : List Sql → Prop
  | start (hvars : t.vars = .init) (hwrites : t.writes = []) : Stage db t []
  | selected (key : InviteKey) (row : Invite) (hheld : Held db t key row)
      (hvars : t.vars = ⟨some (key, row), none, false, false, false⟩) (hwrites : t.writes = []) :
      Stage db t [.selectForUpdate t.call]
  | checked (key : InviteKey) (row : Invite) (hheld : Held db t key row) (existing : Bool)
      (hthere : existing = true → (db.relayMembers.get? t.call.member).isSome)
      (hroom : existing = false → Room row)
      (hvars : t.vars = ⟨some (key, row), some existing, false, false, false⟩)
      (hwrites : t.writes = []) :
      Stage db t [.selectForUpdate t.call, .selectMember t.call]
  | inserted (key : InviteKey) (row : Invite) (hheld : Held db t key row) (existing new : Bool)
      (hsettled : Settled db t row new)
      (hvars : t.vars = ⟨some (key, row), some existing, new, false, false⟩)
      (hwrites : t.writes = memberWrites t.call new) :
      Stage db t [.selectForUpdate t.call, .selectMember t.call, .insertMember t.call]
  | accepted (key : InviteKey) (row : Invite) (hheld : Held db t key row) (existing new : Bool)
      (hsettled : Settled db t row new)
      (hvars : t.vars =
        ⟨some (key, row), some existing, new, false, t.call.policyVersion.isSome⟩)
      (hwrites : t.writes = memberWrites t.call new ++ acceptanceWrites t.call) :
      Stage db t [.selectForUpdate t.call, .selectMember t.call, .insertMember t.call,
        .insertAcceptance t.call]
  | finished (key : InviteKey) (row : Invite) (hheld : Held db t key row) (existing new : Bool)
      (hsettled : Settled db t row new)
      (hvars : t.vars = ⟨some (key, row), some existing, new, new, t.call.policyVersion.isSome⟩)
      (hwrites : t.writes =
        memberWrites t.call new ++ acceptanceWrites t.call ++ useWrites key row new) :
      Stage db t t.call.plan

variable {db : Db} {t : ClaimTx} {key : InviteKey} {row : Invite}

theorem Held.after (h : Held db t key row) (rest : List (Statement Db Lock Vars Write Stopped))
    (locks : List (Lock × Mode)) (vars : Vars) (ws : List Write) :
    Held db (t.after rest locks vars ws) key row :=
  ⟨h.found, h.asked, List.mem_append_left _ h.lock, h.live⟩

theorem Settled.after {new : Bool} (h : Settled db t row new)
    (rest : List (Statement Db Lock Vars Write Stopped)) (locks : List (Lock × Mode)) (vars : Vars)
    (ws : List Write) : Settled db (t.after rest locks vars ws) row new :=
  ⟨fun hnew => ⟨(h.new hnew).1, (h.new hnew).2.1, List.mem_append_left _ (h.new hnew).2.2⟩, h.old⟩

/-! ## Commits of others -/

variable {u : ClaimTx}

theorem Held.commit (h : Held db u key row) (ht : store.Locked t)
    (hfit : conflict t.held u.held = false) : Held (store.seen db t) u key row :=
  ⟨((inviteRow key).read_spared (spared_of_held ht hfit h.lock)).trans h.found, h.asked, h.lock,
    h.live⟩

theorem Settled.commit {new : Bool} (h : Settled db u row new) (ht : store.Locked t)
    (hfit : conflict t.held u.held = false) : Settled (store.seen db t) u row new := by
  refine ⟨fun hnew => ?_, fun hold => isSome_member_view _ _ _ (h.old hold)⟩
  obtain ⟨hroom, habsent, hlock⟩ := h.new hnew
  exact ⟨hroom, ((memberRow _).read_spared (spared_of_held ht hfit hlock)).trans habsent, hlock⟩

variable {done : List Sql}

theorem Stage.commit (h : Stage db u done) (ht : store.Locked t)
    (hfit : conflict t.held u.held = false) : Stage (store.seen db t) u done := by
  cases h with
  | start hvars hwrites => exact .start hvars hwrites
  | selected key row hheld hvars hwrites => exact .selected key row (hheld.commit ht hfit) hvars hwrites
  | checked key row hheld existing hthere hroom hvars hwrites =>
    exact .checked key row (hheld.commit ht hfit) existing
      (fun he => isSome_member_view _ _ _ (hthere he)) hroom hvars hwrites
  | inserted key row hheld existing new hsettled hvars hwrites =>
    exact .inserted key row (hheld.commit ht hfit) existing new (hsettled.commit ht hfit) hvars hwrites
  | accepted key row hheld existing new hsettled hvars hwrites =>
    exact .accepted key row (hheld.commit ht hfit) existing new (hsettled.commit ht hfit) hvars hwrites
  | finished key row hheld existing new hsettled hvars hwrites =>
    exact .finished key row (hheld.commit ht hfit) existing new (hsettled.commit ht hfit) hvars hwrites

/-! ## Statements -/

theorem inviteFor_some {c : Claim} (h : db.inviteFor c = some (key, row)) :
    db.relayInvites.get? key = some row ∧ key.1 = c.community ∧ row.tokenHash = c.tokenHash :=
  ⟨(Table.mem_toList _ _ _).mp (List.mem_of_find?_eq_some h),
    by simpa using List.find?_some h⟩

theorem seen_of_no_writes (h : t.writes = []) : store.seen db t = db := by
  rw [Planned.seen, h]
  rfl

theorem plan_next {c : Claim} {todo : List Sql} {k : Sql} (h : c.plan = done ++ k :: todo)
    {before : List Sql} (hdone : done = before) : c.plan[before.length]? = some k := by
  subst hdone
  rw [h]
  simp

theorem Stage.exec {todo : List Sql} {k : Sql} {vars : Vars} {ws : List Write} (h : Stage db t done)
    (hplan : t.call.plan = done ++ k :: todo)
    (hexec : Sql.exec k t.now t.vars (store.seen db t) = .ok (vars, ws))
    (rest : List (Statement Db Lock Vars Write Stopped)) :
    Stage db (t.after rest (Sql.locks k t.now t.vars (store.seen db t)) vars ws) (done ++ [k]) := by
  cases h with
  | start hvars hwrites =>
    cases plan_next hplan rfl
    rw [seen_of_no_writes hwrites] at hexec ⊢
    simp only [Sql.exec] at hexec
    split at hexec
    · cases hexec
    · rename_i key row hfound
      split_ifs at hexec with hexpired
      cases hexec
      refine .selected key row
        ⟨(inviteFor_some hfound).1, (inviteFor_some hfound).2, ?_, not_le.mp hexpired⟩ ?_ ?_
      · exact List.mem_append_right _ (by simp [Sql.locks, hfound])
      · rw [Tx.after_vars, hvars]
        rfl
      · rw [Tx.after_writes, hwrites, List.append_nil]
  | selected key row hheld hvars hwrites =>
    cases plan_next hplan rfl
    rw [seen_of_no_writes hwrites] at hexec ⊢
    simp only [Sql.exec, hvars] at hexec
    cases hmember : db.relayMembers.get? t.call.member with
    | some m =>
      simp only [hmember, Except.ok.injEq, Prod.mk.injEq] at hexec
      obtain ⟨rfl, rfl⟩ := hexec
      refine .checked key row (hheld.after _ _ _ _) true (fun _ => ?_) (fun h => by cases h) rfl ?_
      · rw [Tx.after_call, hmember]
        rfl
      · rw [Tx.after_writes, hwrites, List.append_nil]
    | none =>
      simp only [hmember] at hexec
      split_ifs at hexec with hfull
      simp only [Except.ok.injEq, Prod.mk.injEq] at hexec
      obtain ⟨rfl, rfl⟩ := hexec
      refine .checked key row (hheld.after _ _ _ _) false (fun h => by cases h) (fun _ => ?_) rfl ?_
      · intro maxUses hmax
        simpa [hmax] using hfull
      · rw [Tx.after_writes, hwrites, List.append_nil]
  | checked key row hheld existing hthere hroom hvars hwrites =>
    cases plan_next hplan rfl
    rw [seen_of_no_writes hwrites] at hexec ⊢
    simp only [Sql.exec, hvars, Option.some.injEq] at hexec
    by_cases hnew : existing = false ∧ db.relayMembers.get? t.call.member = none
    · rw [if_pos hnew] at hexec
      simp only [Except.ok.injEq, Prod.mk.injEq] at hexec
      obtain ⟨rfl, rfl⟩ := hexec
      refine .inserted key row (hheld.after _ _ _ _) existing true
        ⟨fun _ => ⟨hroom hnew.1, hnew.2, ?_⟩, fun h => by cases h⟩ rfl ?_
      · refine List.mem_append_right _ ?_
        simp [Sql.locks, hvars, hnew]
      · rw [Tx.after_writes, hwrites]
        rfl
    · rw [if_neg hnew] at hexec
      simp only [Except.ok.injEq, Prod.mk.injEq] at hexec
      obtain ⟨rfl, rfl⟩ := hexec
      refine .inserted key row (hheld.after _ _ _ _) existing false
        ⟨(fun h => by cases h), fun _ => ?_⟩ rfl ?_
      · cases existing with
        | true => exact hthere rfl
        | false =>
          rw [Tx.after_call, Option.isSome_iff_ne_none]
          exact fun hnone => hnew ⟨rfl, hnone⟩
      · rw [Tx.after_writes, hwrites]
        rfl
  | inserted key row hheld existing new hsettled hvars hwrites =>
    cases plan_next hplan rfl
    simp only [Sql.exec, hvars] at hexec
    refine .accepted key row (hheld.after _ _ _ _) existing new (hsettled.after _ _ _ _) ?_ ?_
    · rw [Tx.after_vars, Tx.after_call]
      cases hversion : t.call.policyVersion <;>
        simp only [hversion, Except.ok.injEq, Prod.mk.injEq] at hexec <;>
        exact hexec.1.symm
    · rw [Tx.after_writes, Tx.after_call, hwrites, acceptanceWrites]
      cases hversion : t.call.policyVersion <;>
        simp only [hversion, Except.ok.injEq, Prod.mk.injEq] at hexec <;>
        rw [← hexec.2]
  | accepted key row hheld existing new hsettled hvars hwrites =>
    cases plan_next hplan rfl
    simp only [Sql.exec, hvars] at hexec
    refine .finished key row (hheld.after _ _ _ _) existing new (hsettled.after _ _ _ _) ?_ ?_
    · cases new with
      | true =>
        simp only [Bool.not_true, Bool.false_eq_true, if_false] at hexec
        split_ifs at hexec
        simp only [Except.ok.injEq, Prod.mk.injEq] at hexec
        exact hexec.1.symm
      | false =>
        simp only [Bool.not_false, if_true, Except.ok.injEq, Prod.mk.injEq] at hexec
        exact hexec.1.symm
    · rw [Tx.after_writes, Tx.after_call, hwrites, useWrites]
      cases new with
      | true =>
        simp only [Bool.not_true, Bool.false_eq_true, if_false] at hexec
        split_ifs at hexec
        simp only [Except.ok.injEq, Prod.mk.injEq] at hexec
        rw [← hexec.2, if_pos rfl]
      | false =>
        simp only [Bool.not_false, if_true, Except.ok.injEq, Prod.mk.injEq] at hexec
        rw [← hexec.2, if_neg Bool.false_ne_true]
  | finished =>
    have hlength := congrArg List.length hplan
    simp at hlength

/-! ## Commits -/

structure Redeemed (before after : Db) (c : Claim) (v : Vars) (key : InviteKey) (row : Invite) :
    Prop where
  invite : v.invite = some (key, row)
  found : before.relayInvites.get? key = some row
  asked : key.1 = c.community ∧ row.tokenHash = c.tokenHash
  live : c.now < row.expiresAt
  inserted_iff : v.inserted = true ↔ before.relayMembers.get? c.member = none
  room : v.inserted = true → Room row
  uses : ∀ other, after.relayInvites.get? other =
    if v.inserted = true ∧ other = key then some { row with useCount := row.useCount + 1 }
    else before.relayInvites.get? other
  members : ∀ other, after.relayMembers.get? other =
    if v.inserted = true ∧ other = c.member then some ⟨"member", some "invite"⟩
    else before.relayMembers.get? other
  evidence : ∀ other version, after.acceptances.get? (other, version) =
    if other = c.member ∧ c.policyVersion = some version then some ()
    else before.acceptances.get? (other, version)

theorem Stage.redeemed (h : Stage db t (store.plan t.call)) :
    ∃ key row, Redeemed db (store.seen db t) t.call t.vars key row := by
  generalize hdone : store.plan t.call = done at h
  cases h with
  | finished key row hheld existing new hsettled hvars hwrites =>
    refine ⟨key, row, ?_⟩
    rw [hvars]
    exact {
      invite := rfl
      found := hheld.found
      asked := hheld.asked
      live := hheld.live
      inserted_iff := by
        cases new with
        | true => simp [(hsettled.new rfl).2.1]
        | false =>
          have hthere := Option.isSome_iff_ne_none.mp (hsettled.old rfl)
          simp [hthere]
      room := fun hnew => (hsettled.new hnew).1
      uses := by
        intro other
        rw [Planned.seen, (inviteRow other).read_view, hwrites]
        cases new <;> cases hversion : t.call.policyVersion <;>
          simp only [memberWrites, acceptanceWrites, useWrites, hversion, if_true, if_false,
            Bool.false_eq_true, List.nil_append, List.append_nil, List.cons_append,
            List.foldl_cons, List.foldl_nil, inviteRow, true_and, false_and]
        all_goals
          by_cases heq : other = key
          · subst heq
            simp [hheld.found]
          · simp [heq, Ne.symm heq]
      members := by
        intro other
        rw [Planned.seen, (memberRow other).read_view, hwrites]
        cases new <;> cases hversion : t.call.policyVersion <;>
          simp [memberWrites, acceptanceWrites, useWrites, hversion, memberRow, eq_comm]
      evidence := by
        intro other version
        rw [Planned.seen, (acceptanceRow other version).read_view, hwrites]
        cases new <;> cases hversion : t.call.policyVersion <;>
          simp [memberWrites, acceptanceWrites, useWrites, hversion, acceptanceRow, eq_comm] }
  | _ => cases hdone

/-! ## Runs -/

def joins (answers : List (Claim × Except Stopped Vars)) : List (InviteKey × MemberKey) :=
  answers.filterMap fun
    | (c, .ok v) => if v.inserted then v.invite.map fun (key, _) => (key, c.member) else none
    | (_, .error _) => none

def paidBy (key : InviteKey) (answers : List (Claim × Except Stopped Vars)) : Nat :=
  (joins answers).countP fun (invite, _) => invite == key

def WithinLimits (db : Db) : Prop :=
  ∀ key row, db.relayInvites.get? key = some row →
    ∀ maxUses, row.maxUses = some maxUses → row.useCount ≤ maxUses

structure Balanced (start : Db) (p : ClaimPublic) : Prop where
  uses : ∀ key, p.db.relayInvites.get? key = (start.relayInvites.get? key).map fun row =>
    { row with useCount := row.useCount + paidBy key p.answers }
  limits : WithinLimits p.db
  members : ∀ member, (p.db.relayMembers.get? member).isSome ↔
    (start.relayMembers.get? member).isSome ∨ member ∈ (joins p.answers).map Prod.snd
  once : ((joins p.answers).map Prod.snd).Nodup
  new : ∀ member ∈ (joins p.answers).map Prod.snd, start.relayMembers.get? member = none
  valid : ∀ c v, (c, .ok v) ∈ p.answers → ∃ key row, start.relayInvites.get? key = some row ∧
    key.1 = c.community ∧ row.tokenHash = c.tokenHash ∧ c.now < row.expiresAt

theorem joins_error (answers : List (Claim × Except Stopped Vars)) (c : Claim) (error : Stopped) :
    joins (answers ++ [(c, Except.error error)]) = joins answers := by
  simp [joins]

theorem joins_ok (answers : List (Claim × Except Stopped Vars)) (c : Claim) {v : Vars}
    (h : v.invite = some (key, row)) : joins (answers ++ [(c, Except.ok v)]) =
      joins answers ++ if v.inserted then [(key, c.member)] else [] := by
  cases hnew : v.inserted <;> simp [joins, hnew, h]

theorem paidBy_ok (answers : List (Claim × Except Stopped Vars)) (c : Claim) {v : Vars}
    (h : v.invite = some (key, row)) (other : InviteKey) :
    paidBy other (answers ++ [(c, Except.ok v)]) =
      paidBy other answers + if v.inserted = true ∧ other = key then 1 else 0 := by
  rw [paidBy, joins_ok answers c h, List.countP_append]
  cases v.inserted with
  | true => simp [paidBy, List.countP_cons, eq_comm (a := key)]
  | false => simp [paidBy]

theorem Balanced.start {clock : Int} (h : WithinLimits db) :
    Balanced db (World.init clock db : ClaimWorld).pub where
  uses key := by
    cases hrow : db.relayInvites.get? key with
    | none => simp [World.init, hrow]
    | some row => simp [World.init, hrow, paidBy, joins]
  limits := h
  members member := by simp [World.init, joins]
  once := List.nodup_nil
  new member hm := by cases hm
  valid c v hmem := by cases hmem

variable {start : Db}

theorem Balanced.refuse {p : ClaimPublic} (h : Balanced start p) (c : Claim) (error : Stopped) :
    Balanced start (p.refuse c error) where
  uses key := by
    rw [paidBy, Public.refuse, joins_error]
    exact h.uses key
  limits := h.limits
  members member := by
    rw [Public.refuse, joins_error]
    exact h.members member
  once := by
    rw [Public.refuse, joins_error]
    exact h.once
  new member := by
    rw [Public.refuse, joins_error]
    exact h.new member
  valid c' v hmem := by
    simp only [Public.refuse, List.mem_append, List.mem_singleton, Prod.mk.injEq] at hmem
    rcases hmem with hmem | ⟨-, hcontra⟩
    · exact h.valid c' v hmem
    · cases hcontra

theorem Balanced.commit {p : ClaimPublic} (h : Balanced start p)
    (hredeemed : Redeemed p.db (store.seen p.db t) t.call t.vars key row) :
    Balanced start (p.commit store.system t) where
  uses other := by
    show (store.seen p.db t).relayInvites.get? other = _
    rw [hredeemed.uses other, Public.commit, paidBy_ok p.answers t.call hredeemed.invite other]
    have hbefore := h.uses other
    split_ifs with hpays
    · rw [hpays.2, hredeemed.found] at hbefore
      obtain ⟨row', hrow', hsame⟩ := Option.map_eq_some_iff.mp hbefore.symm
      rw [hpays.2, hrow', ← hsame]
      simp [Nat.add_assoc]
    · rw [hbefore]
      simp
  limits := by
    intro other row' hrow' maxUses hmax
    replace hrow' : (store.seen p.db t).relayInvites.get? other = some row' := hrow'
    rw [hredeemed.uses other] at hrow'
    split_ifs at hrow' with hpays
    · cases hrow'
      exact hredeemed.room hpays.1 maxUses hmax
    · exact h.limits other row' hrow' maxUses hmax
  members member := by
    show ((store.seen p.db t).relayMembers.get? member).isSome ↔ _
    rw [hredeemed.members member, Public.commit, joins_ok p.answers t.call hredeemed.invite]
    have hbefore := h.members member
    cases hnew : t.vars.inserted with
    | false => simpa [hnew] using hbefore
    | true =>
      by_cases heq : member = t.call.member
      · simp [heq]
      · simpa [heq] using hbefore
  once := by
    rw [Public.commit, joins_ok p.answers t.call hredeemed.invite, List.map_append]
    cases hnew : t.vars.inserted with
    | false => simpa using h.once
    | true =>
      have habsent := hredeemed.inserted_iff.mp hnew
      have hnot : t.call.member ∉ (joins p.answers).map Prod.snd := by
        intro hmem
        have hthere := (h.members t.call.member).mpr (.inr hmem)
        rw [habsent] at hthere
        cases hthere
      exact List.Nodup.append h.once (List.nodup_singleton _) (by simpa using hnot)
  new member hmem := by
    rw [Public.commit, joins_ok p.answers t.call hredeemed.invite, List.map_append,
      List.mem_append] at hmem
    rcases hmem with hmem | hmem
    · exact h.new member hmem
    · cases hnew : t.vars.inserted with
      | false => simp [hnew] at hmem
      | true =>
        obtain rfl : member = t.call.member := by simpa [hnew] using hmem
        have habsent := hredeemed.inserted_iff.mp hnew
        by_contra hthere
        have hsome := (h.members t.call.member).mpr (.inl (Option.isSome_iff_ne_none.mpr hthere))
        rw [habsent] at hsome
        cases hsome
  valid c v hmem := by
    simp only [Public.commit, List.mem_append, List.mem_singleton, Prod.mk.injEq,
      Except.ok.injEq] at hmem
    rcases hmem with hmem | ⟨rfl, rfl⟩
    · exact h.valid c v hmem
    · have hbefore := h.uses key
      rw [hredeemed.found] at hbefore
      obtain ⟨row', hrow', hsame⟩ := Option.map_eq_some_iff.mp hbefore.symm
      have hlive := hredeemed.live
      have hasked := hredeemed.asked
      rw [← hsame] at hlive hasked
      exact ⟨key, row', hrow', hasked.1, hasked.2, hlive⟩

theorem balanced_rule (start : Db) :
    PlanRule store .any (fun _ => True) (fun _ _ _ => True) (Balanced start)
      (fun db done t => Stage db t done) where
  advance _ _ h := ⟨h.uses, h.limits, h.members, h.once, h.new, h.valid⟩
  refuse p call error h := h.refuse call error
  begin _ _ _ := .start rfl rfl
  exec p done k todo t vars ws _ _ _ hown hplan _ hexec := hown.exec hplan hexec _
  commit p t _ h _ hown _ _ _ := by
    obtain ⟨key, row, hredeemed⟩ := hown.redeemed
    exact h.commit hredeemed
  ownCommit p t u done _ _ _ _ _ hu hlocked _ hfit _ := hu.commit hlocked hfit

def Redeems (s : ClaimWorld) (a : Action Claim Stopped) : Prop :=
  ∀ s', step store.system s a = some s' →
    match a with
    | .commit tx => ∃ t key row, s.txs.get? tx = some t ∧
        s'.pub.answers = s.pub.answers ++ [(t.call, Except.ok t.vars)] ∧
        Redeemed s.pub.db s'.pub.db t.call t.vars key row
    | _ => s'.pub.db = s.pub.db

theorem redeems_of_kept {s : ClaimWorld} (a : Action Claim Stopped)
    (hkept : Kept (Balanced start) (Open store fun db done t => Stage db t done) s) :
    Redeems s a := by
  intro s' hstep
  cases a with
  | commit tx =>
    obtain ⟨t, hopen, hrest, hpub⟩ := step_commit hstep
    obtain ⟨-, -, hown⟩ := (hkept.own tx t hopen).finished hrest
    obtain ⟨key, row, hredeemed⟩ := hown.redeemed
    have hdb : s'.pub.db = store.seen s.pub.db t := by rw [hpub]; rfl
    refine ⟨t, key, row, hopen, ?_, ?_⟩
    · rw [hpub]
      rfl
    · rw [hdb]
      exact hredeemed
  | _ => exact step_db hstep (by simp)

/-- However the claims interleave and whichever of them fail, the books balance after every run,
and every step either redeems an invite as a whole or changes nothing. -/
theorem claims_balance {start : Db} (hlimits : WithinLimits start) {clock : Int}
    {as : List (Action Claim Stopped)} {s : ClaimWorld}
    (hrun : run (step store.system) (World.init clock start) as = some s) :
    Balanced start s.pub ∧ Meets (step store.system) Redeems (World.init clock start) as := by
  have hrule := (balanced_rule start).always disciplined
  have hinit : Kept (Balanced start) (Open store fun db done t => Stage db t done)
      (World.init clock start) := kept_init clock (Balanced.start hlimits)
  refine ⟨(run_keeps hrule hinit hrun).inv, ?_⟩
  refine meets_of_invariant (Kept (Balanced start) (Open store fun db done t => Stage db t done))
    ?_ ?_ as hinit
  · intro s a s' hkept hstep
    exact (step_cases hstep).kept hrule (Guard.any_allows s a) hkept
  · intro s a hkept
    exact redeems_of_kept a hkept

/-! ## One person with two invites -/

def openInvite : InviteKey := (1, 1)

def lastSlot : InviteKey := (1, 2)

def tokenHashOf (n : UInt8) : List UInt8 := List.replicate 31 0 ++ [n]

def twoInvites : Db :=
  ⟨(Table.set ∅ openInvite ⟨tokenHashOf 10, none, 0, 1000⟩).set lastSlot
    ⟨tokenHashOf 20, some 1, 0, 1000⟩, ∅, ∅⟩

def policyHash : String := "9f86d081884c7d659a2feaa0c55ad015a3bf4f1b2b0b822cd15d6c15b0f00a08"

def alice : String := "79be667ef9dcbbac55a06295ce870b07029bfcdb2dce28d959f2815b16f81798"

def bob : String := "c6047f9441ed7d6d3045406e95c07cd85c778e4b8cef3ca7abac09b95c709ee5"

def claimOpen : Claim := ⟨1, tokenHashOf 10, alice, some policyHash, 500⟩

def claimSlot (pubkey : String) : Claim := ⟨1, tokenHashOf 20, pubkey, none, 500⟩

def bothClaimed : List (Action Claim Stopped) :=
  [Action.begin claimOpen, .begin (claimSlot alice), .exec 0, .exec 1, .exec 0, .exec 1, .exec 0,
    .exec 0, .exec 0, .commit 0, .exec 1, .exec 1, .exec 1, .commit 1,
    .begin (claimSlot bob)] ++ List.replicate 5 (Action.exec 2) ++ [Action.commit 2]

theorem twoInvites_within : WithinLimits twoInvites := by
  intro key row hrow maxUses hmax
  have huses : row.useCount = 0 := by
    simp only [twoInvites, Table.get?_set] at hrow
    split_ifs at hrow
    · cases hrow
      rfl
    · cases hrow
      rfl
    · cases hrow
  omega

theorem claims_balance_with_two_invites :
    ∃ s, run (step store.system) (World.init 0 twoInvites) bothClaimed = some s ∧
      joins s.pub.answers = [(openInvite, (1, alice)), (lastSlot, (1, bob))] ∧
      Balanced twoInvites s.pub ∧
      Meets (step store.system) Redeems (World.init 0 twoInvites) bothClaimed := by
  have hrun : ((run (step store.system) (World.init 0 twoInvites) bothClaimed).any fun s =>
      joins s.pub.answers == [(openInvite, (1, alice)), (lastSlot, (1, bob))]) = true := by
    decide +kernel
  obtain ⟨s, hs, hjoins⟩ := (Option.any_eq_true _ _).mp hrun
  obtain ⟨hbalanced, hmeets⟩ := claims_balance twoInvites_within hs
  exact ⟨s, hs, by simpa using hjoins, hbalanced, hmeets⟩

end Vingilot.Invites
