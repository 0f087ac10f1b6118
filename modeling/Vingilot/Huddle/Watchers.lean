import Vingilot.Huddle.Owners

/-!
# What the peers of an owned huddle watch

A peer that is admitted for a lease watches tokens. As long as handlers find the entry of their own
lease, and no entry is released under a peer, one of these is cancelled once the renewer stops.
-/

namespace Vingilot.Huddle

open Machine

/-! ## The registry -/

variable {l : HuddleLease}

namespace HuddleOwnerRegistry

/-- What a peer watches is cancelled, or the renewer of its lease runs and is not told to stop. -/
def Covered (o : HuddleOwnerRegistry) (lease : HuddleLease) (lost draining : Option Token) : Prop :=
  (∃ t, (lost = some t ∨ draining = some t) ∧ t ∈ o.cancelled) ∨
    (lost = some (.lost lease) ∧ draining = some (.draining lease) ∧
      o.renewers.get? lease = some true ∧ .cancel lease ∉ o.cancelled)

def Started (o : HuddleOwnerRegistry) (lease : HuddleLease) : Prop :=
  ∃ running, o.renewers.get? lease = some running ∧
    (running = false → .lost lease ∈ o.cancelled)

def entryOf (lease : HuddleLease) : HuddleOwnerEntry :=
  ⟨.lost lease, .draining lease, .cancel lease, lease.generation⟩

def Proper (o : HuddleOwnerRegistry) : Prop :=
  ∀ sessionId entry, o.entries.get? sessionId = some entry → ∃ lease, lease.sessionId = sessionId ∧
    entry = entryOf lease ∧ o.Started lease ∧ .cancel lease ∉ o.cancelled

def Told (o : HuddleOwnerRegistry) : Prop :=
  ∀ lease, .cancel lease ∈ o.cancelled → o.renewers.get? lease ≠ none

variable {o o' : HuddleOwnerRegistry} {lease : HuddleLease} {lost draining : Option Token}

theorem Covered.append (h : o.Covered lease lost draining) (tokens : List Token)
    (hcancelled : o'.cancelled = tokens ++ o.cancelled)
    (hrunning : o.renewers.get? lease = some true → .cancel lease ∉ o.cancelled →
      (o'.renewers.get? lease = some true ∧ .cancel lease ∉ tokens) ∨
        (lost = some (.lost lease) → .lost lease ∈ o'.cancelled) ∨
        .draining lease ∈ o'.cancelled) :
    o'.Covered lease lost draining := by
  rcases h with ⟨t, ht, hmem⟩ | ⟨hlost, hdraining, hrun, hcancel⟩
  · refine Or.inl ⟨t, ht, ?_⟩
    rw [hcancelled]
    exact List.mem_append_right _ hmem
  · rcases hrunning hrun hcancel with ⟨hrun', htokens⟩ | hmem | hmem
    · refine Or.inr ⟨hlost, hdraining, hrun', ?_⟩
      rw [hcancelled, List.mem_append, not_or]
      exact ⟨htokens, hcancel⟩
    · exact Or.inl ⟨.lost lease, Or.inl hlost, hmem hlost⟩
    · exact Or.inl ⟨.draining lease, Or.inr hdraining, hmem⟩

theorem Proper.append (hproper : o.Proper) (tokens : List Token)
    (hcancelled : o'.cancelled = tokens ++ o.cancelled)
    (hentries : ∀ sessionId entry, o'.entries.get? sessionId = some entry →
      o.entries.get? sessionId = some entry)
    (htokens : ∀ l, .cancel l ∈ tokens → o'.entries.get? l.sessionId ≠ some (entryOf l))
    (hrenewers : ∀ l running, o.renewers.get? l = some running → .cancel l ∉ o.cancelled →
      ∃ running', o'.renewers.get? l = some running' ∧
        (running' = false → running = false ∨ .lost l ∈ o'.cancelled)) : o'.Proper := by
  intro sessionId entry hentry
  obtain ⟨l, rfl, rfl, ⟨running, hget, hstopped⟩, hcancel⟩ :=
    hproper sessionId entry (hentries _ _ hentry)
  obtain ⟨running', hget', hstopped'⟩ := hrenewers l running hget hcancel
  refine ⟨l, rfl, rfl, ⟨running', hget', fun hfalse => ?_⟩, ?_⟩
  · rcases hstopped' hfalse with hold | hmem
    · rw [hcancelled]
      exact List.mem_append_right _ (hstopped hold)
    · exact hmem
  · rw [hcancelled, List.mem_append, not_or]
    exact ⟨fun hmem => htokens l hmem hentry, hcancel⟩

theorem Proper.started (hproper : o.Proper)
    (hentry : o.entries.get? l.sessionId = some (entryOf l)) : o.renewers.get? l ≠ none := by
  obtain ⟨l', -, heq, ⟨running, hget, -⟩, -⟩ := hproper _ _ hentry
  obtain rfl : l = l' := Token.lost.inj (congrArg HuddleOwnerEntry.lost heq)
  rw [hget]
  simp

theorem retract_cases (hproper : o.Proper) (sessionId : Uuid) (generation : Nat)
    (tokens : HuddleOwnerEntry → List Token) :
    o.retract sessionId generation tokens = o ∨
      ∃ l : HuddleLease, l.sessionId = sessionId ∧ l.generation = generation ∧
        o.entries.get? sessionId = some (entryOf l) ∧ .cancel l ∉ o.cancelled ∧
        o.retract sessionId generation tokens = { o with
          entries := o.entries.remove sessionId
          cancelled := tokens (entryOf l) ++ o.cancelled } := by
  unfold retract
  cases hget : o.entries.get? sessionId with
  | none => exact Or.inl rfl
  | some entry =>
    obtain ⟨l, hsession, rfl, -, hcancel⟩ := hproper sessionId entry hget
    dsimp only
    split_ifs with hgeneration
    · exact Or.inr ⟨l, hsession, hgeneration, rfl, hcancel, rfl⟩
    · exact Or.inl rfl

variable {tokens : HuddleOwnerEntry → List Token}

theorem proper_retract (hproper : o.Proper) (sessionId : Uuid) (generation : Nat)
    (htokens : ∀ l l', .cancel l' ∈ tokens (entryOf l) → l' = l) :
    (o.retract sessionId generation tokens).Proper := by
  rcases retract_cases hproper sessionId generation tokens with h | ⟨l, rfl, -, -, -, h⟩
  · rw [h]
    exact hproper
  · rw [h]
    refine hproper.append _ rfl ?_ ?_ fun l' running hrunning _ => ⟨running, hrunning, Or.inl⟩
    · intro sessionId entry hentry
      change (o.entries.remove l.sessionId).get? sessionId = some entry at hentry
      rw [Table.get?_remove] at hentry
      split_ifs at hentry
      exact hentry
    · intro l' hmem
      change (o.entries.remove l.sessionId).get? l'.sessionId ≠ some (entryOf l')
      rw [htokens l l' hmem, Table.get?_remove, if_pos rfl]
      simp

theorem Covered.retract (h : o.Covered lease lost draining) (hproper : o.Proper) {sessionId : Uuid}
    {generation : Nat} (htokens : ∀ l l', .cancel l' ∈ tokens (entryOf l) → l' = l)
    (hown : o.entries.get? sessionId = some (entryOf lease) → lease.generation = generation →
      (lost = some (.lost lease) → .lost lease ∈ o.cancelled) ∨
        .draining lease ∈ tokens (entryOf lease)) :
    (o.retract sessionId generation tokens).Covered lease lost draining := by
  rcases retract_cases hproper sessionId generation tokens with
    heq | ⟨l, -, hgeneration, hget, -, heq⟩
  · rw [heq]
    exact h
  · rw [heq]
    refine h.append _ rfl fun hrun hcancel => ?_
    by_cases hl : lease = l
    · subst hl
      rcases hown hget hgeneration with hmem | hmem
      · exact Or.inr (Or.inl fun hlost => List.mem_append_right _ (hmem hlost))
      · exact Or.inr (Or.inr (List.mem_append_left _ hmem))
    · exact Or.inl ⟨hrun, fun hmem => hl (htokens l lease hmem)⟩

theorem Covered.drain (h : o.Covered lease lost draining) (hproper : o.Proper) (sessionId : Uuid)
    (generation : Nat) : (o.drain sessionId generation).Covered lease lost draining :=
  h.retract hproper (by simp [entryOf]) fun _ _ => Or.inr (by simp [entryOf])

theorem cancelled_retract (sessionId : Uuid) (generation : Nat)
    (tokens : HuddleOwnerEntry → List Token) :
    ∀ t ∈ o.cancelled, t ∈ (o.retract sessionId generation tokens).cancelled := by
  intro t ht
  unfold retract
  split
  · exact ht
  · split_ifs
    · exact List.mem_append_right _ ht
    · exact ht

theorem renewers_retract (sessionId : Uuid) (generation : Nat)
    (tokens : HuddleOwnerEntry → List Token) :
    (o.retract sessionId generation tokens).renewers = o.renewers := by
  unfold retract
  split
  · rfl
  · split_ifs <;> rfl

theorem Covered.release (h : o.Covered lease lost draining) (hproper : o.Proper) {sessionId : Uuid}
    {generation : Nat} (hfree : ∀ entry, o.entries.get? sessionId = some entry →
      entry.generation = generation → entry.lost ∈ o.cancelled ∨ lost ≠ some entry.lost) :
    (o.release sessionId generation).Covered lease lost draining := by
  refine h.retract hproper (by simp [entryOf]) fun hget hgeneration => Or.inl fun hlost => ?_
  rcases hfree _ hget hgeneration with hmem | hne
  · exact hmem
  · exact absurd hlost hne

theorem entries_retract (l : HuddleLease) (tokens : HuddleOwnerEntry → List Token) :
    (o.retract l.sessionId l.generation tokens).entries.get? l.sessionId ≠ some (entryOf l) := by
  intro h
  unfold retract at h
  cases hget : o.entries.get? l.sessionId with
  | none =>
    simp only [hget] at h
    cases h
  | some entry =>
    simp only [hget] at h
    split_ifs at h with hgeneration
    · rw [Table.get?_remove, if_pos rfl] at h
      cases h
    · rw [hget] at h
      cases h
      exact hgeneration rfl

theorem told_retract (htold : o.Told) (hproper : o.Proper) (sessionId : Uuid) (generation : Nat)
    (htokens : ∀ l l', .cancel l' ∈ tokens (entryOf l) → l' = l) :
    (o.retract sessionId generation tokens).Told := by
  rcases retract_cases hproper sessionId generation tokens with h | ⟨l, rfl, -, hget, -, h⟩
  · rw [h]
    exact htold
  · rw [h]
    intro l' hmem
    rcases List.mem_append.mp hmem with hmem | hmem
    · rw [htokens l l' hmem]
      exact hproper.started hget
    · exact htold l' hmem

/-! ## Attaching -/

theorem renewers_set {running : Bool} (hnew : o.renewers.get? l = none)
    (h : o.renewers.get? lease = some running) :
    (o.renewers.set l true).get? lease = some running := by
  rw [Table.get?_set, if_neg]
  · exact h
  · rintro rfl
    rw [hnew] at h
    cases h

theorem Covered.throwaway (h : o.Covered lease lost draining) (hnew : o.renewers.get? l = none) :
    (o.throwaway l).Covered lease lost draining := by
  refine h.append [.cancel l] rfl fun hrun _ => Or.inl ⟨renewers_set hnew hrun, fun hmem => ?_⟩
  obtain rfl : lease = l := by simpa using hmem
  rw [hnew] at hrun
  cases hrun

theorem proper_throwaway (hproper : o.Proper) (hnew : o.renewers.get? l = none) :
    (o.throwaway l).Proper := by
  refine hproper.append [.cancel l] rfl (fun _ _ hentry => hentry) ?_ ?_
  · intro l' hmem hentry
    obtain rfl : l' = l := by simpa using hmem
    exact hproper.started hentry hnew
  · intro l' running hrunning _
    exact ⟨running, renewers_set hnew hrunning, Or.inl⟩

theorem Covered.cancel (h : o.Covered lease lost draining) (tokens : List Token)
    (htokens : .cancel lease ∈ tokens → .draining lease ∈ tokens) :
    Covered { o with cancelled := tokens ++ o.cancelled } lease lost draining := by
  refine h.append tokens rfl fun hrun _ => ?_
  by_cases hmem : .cancel lease ∈ tokens
  · exact Or.inr (Or.inr (List.mem_append_left _ (htokens hmem)))
  · exact Or.inl ⟨hrun, hmem⟩

theorem Proper.cancel (hproper : o.Proper) (tokens : List Token)
    (htokens : ∀ l, .cancel l ∈ tokens → o.entries.get? l.sessionId ≠ some (entryOf l)) :
    Proper { o with cancelled := tokens ++ o.cancelled } :=
  hproper.append tokens rfl (fun _ _ hentry => hentry) htokens
    fun _ running hrunning _ => ⟨running, hrunning, Or.inl⟩

theorem publish_spec (hproper : o.Proper) (hnew : o.renewers.get? l = none)
    (hcancel : .cancel l ∉ o.cancelled)
    (hfree : o.isDraining = true ∨ ∀ entry, o.entries.get? l.sessionId = some entry →
      entry.lost ∈ o.cancelled) : (o.publish l).1.Proper ∧
      (∀ lease lost draining, o.Covered lease lost draining →
        (o.publish l).1.Covered lease lost draining) ∧
      (o.publish l).1.Covered l (some (o.publish l).2.1.lost) (some (o.publish l).2.1.draining) ∧
      (o.publish l).1.renewers = o.renewers.set l true ∧
      ∀ t ∈ o.cancelled, t ∈ (o.publish l).1.cancelled := by
  unfold publish
  by_cases hdraining : o.isDraining = true
  · rw [if_pos hdraining]
    dsimp only
    refine ⟨?_, fun lease lost draining h => ?_, ?_, rfl, fun t ht => ?_⟩
    · refine (proper_throwaway hproper hnew).cancel [.draining l] fun l' hmem => ?_
      simp at hmem
    · exact (h.throwaway hnew).cancel [.draining l] (by simp)
    · exact Or.inl ⟨.draining l, Or.inr rfl, List.mem_cons_self⟩
    · exact List.mem_cons_of_mem _ (List.mem_cons_of_mem _ ht)
  · rw [if_neg hdraining]
    cases hget : o.entries.get? l.sessionId with
    | some existing =>
      dsimp only
      refine ⟨proper_throwaway hproper hnew, fun lease lost draining h => h.throwaway hnew, ?_, rfl,
        fun t ht => List.mem_cons_of_mem _ ht⟩
      have hlost := (hfree.resolve_left hdraining) existing hget
      exact Or.inl ⟨existing.lost, Or.inl rfl, List.mem_cons_of_mem _ hlost⟩
    | none =>
      dsimp only
      refine ⟨?_, fun lease lost draining h => ?_, ?_, rfl, fun t ht => ht⟩
      · intro sessionId entry hentry
        change (o.entries.set l.sessionId _).get? sessionId = some entry at hentry
        rw [Table.get?_set] at hentry
        split_ifs at hentry with hsession
        · cases hentry
          refine ⟨l, hsession.symm, rfl, ⟨true, ?_, fun h => by cases h⟩, hcancel⟩
          rw [Table.get?_set, if_pos rfl]
        · obtain ⟨l', hl', rfl, ⟨running, hrunning, hstopped⟩, hcancel'⟩ :=
            hproper sessionId entry hentry
          exact ⟨l', hl', rfl, ⟨running, renewers_set hnew hrunning, hstopped⟩, hcancel'⟩
      · exact h.append [] rfl fun hrun _ => Or.inl ⟨renewers_set hnew hrun, List.not_mem_nil⟩
      · refine Or.inr ⟨rfl, rfl, ?_, hcancel⟩
        rw [Table.get?_set, if_pos rfl]

theorem told_publish (htold : o.Told) (l : HuddleLease) : (o.publish l).1.Told := by
  have hset : ∀ (tokens : List Token) {l' : HuddleLease}, (.cancel l' ∈ tokens → l' = l) →
      .cancel l' ∈ tokens ++ o.cancelled → (o.renewers.set l true).get? l' ≠ none := by
    intro tokens l' htokens hmem
    rw [Table.get?_set]
    split_ifs with hl
    · exact fun h => by cases h
    · rcases List.mem_append.mp hmem with hmem | hmem
      · exact absurd (htokens hmem) hl
      · exact htold l' hmem
  unfold publish
  split_ifs
  · exact fun l' hmem => hset [.draining l, .cancel l] (by simp) hmem
  · split
    · exact fun l' hmem => hset [.cancel l] (by simp) hmem
    · exact fun l' hmem => hset [] (by simp) hmem

theorem told_recheck (htold : o.Told) (hproper : o.Proper) (hl : o.renewers.get? l ≠ none) :
    (o.recheck l).Told := by
  unfold recheck
  split_ifs
  · have hdrain : (o.drain l.sessionId l.generation).Told :=
      told_retract htold hproper _ _ (by simp [entryOf])
    intro l' hmem
    change Token.cancel l' ∈ Token.draining l :: Token.cancel l :: _ at hmem
    change (o.drain l.sessionId l.generation).renewers.get? l' ≠ none
    simp only [List.mem_cons, reduceCtorEq, Token.cancel.injEq, false_or] at hmem
    rcases hmem with rfl | hmem
    · rw [drain, renewers_retract]
      exact hl
    · exact hdrain l' hmem
  · exact htold

theorem recheck_spec (hproper : o.Proper) (l : HuddleLease) :
    (o.recheck l).Proper ∧
      (∀ lease lost draining, o.Covered lease lost draining →
        (o.recheck l).Covered lease lost draining) ∧
      (o.recheck l).renewers = o.renewers ∧ ∀ t ∈ o.cancelled, t ∈ (o.recheck l).cancelled := by
  unfold recheck
  split_ifs
  · refine ⟨?_, fun lease lost draining h => ?_, renewers_retract .., fun t ht => ?_⟩
    · refine (proper_retract hproper l.sessionId l.generation (by simp [entryOf])).cancel
        [.draining l, .cancel l] fun l' hmem => ?_
      obtain rfl : l' = l := by simpa using hmem
      exact entries_retract l' _
    · exact (h.drain hproper l.sessionId l.generation).cancel
        [.draining l, .cancel l] fun hmem => by simpa using hmem
    · exact List.mem_append_right [.draining l, .cancel l] (cancelled_retract _ _ _ t ht)
  · exact ⟨hproper, fun _ _ _ h => h, rfl, fun _ ht => ht⟩

/-! ## Renewers -/

theorem end_spec (hproper : o.Proper) {tokens : List Token} (htokens : ∀ l', .cancel l' ∉ tokens)
    (hwhy : .lost l ∈ tokens ∨ .cancel l ∈ o.cancelled) :
    Proper { o with renewers := o.renewers.set l false, cancelled := tokens ++ o.cancelled } ∧
      ∀ lease lost draining, o.Covered lease lost draining → Covered
        { o with renewers := o.renewers.set l false, cancelled := tokens ++ o.cancelled }
        lease lost draining := by
  constructor
  · refine hproper.append tokens rfl (fun _ _ hentry => hentry)
      (fun l' hmem => absurd hmem (htokens l')) fun l' running hrunning hcancel => ?_
    change ∃ running', (o.renewers.set l false).get? l' = some running' ∧ _
    rw [Table.get?_set]
    split_ifs with hl
    · subst hl
      exact ⟨false, rfl, fun _ => Or.inr (List.mem_append_left _ (hwhy.resolve_right hcancel))⟩
    · exact ⟨running, hrunning, Or.inl⟩
  · intro lease lost draining h
    refine h.append tokens rfl fun hrun hcancel => ?_
    by_cases hl : lease = l
    · subst hl
      exact Or.inr (Or.inl fun _ => List.mem_append_left _ (hwhy.resolve_right hcancel))
    · refine Or.inl ⟨?_, htokens lease⟩
      rw [Table.get?_set, if_neg hl]
      exact hrun

end HuddleOwnerRegistry

/-! ## The invariant -/

def JoinPhase.watching : JoinPhase → Option (HuddleLease × Option Token × Option Token)
  | .published lease signals _ => some (lease, some signals.lost, some signals.draining)
  | .connected lease lost draining => some (lease, lost, draining)
  | _ => none

def JoinPhase.minted : JoinPhase → Option HuddleLease
  | .resolved lease true | .admitted lease true => some lease
  | _ => none

variable {c : Nat}

namespace OwnerPod

def generation (w : OwnerPod) (key : HuddleKey) : Nat := (w.generations.get? key).getD 0

structure Inv (w : OwnerPod) : Prop where
  proper : w.owners.Proper
  told : w.owners.Told
  watching : ∀ c ph lease lost draining, w.joins.get? c = some ph →
    ph.watching = some (lease, lost, draining) → w.owners.Covered lease lost draining
  reusing : ∀ c lease lost, w.joins.get? c = some (.reusing lease lost) →
    ∃ t, lost = some t ∧ (t = .lost lease ∨ t ∈ w.owners.cancelled)
  minted : ∀ c ph lease, w.joins.get? c = some ph → ph.minted = some lease →
    w.owners.renewers.get? lease = none ∧ lease.generation ≤ w.generation lease.key
  apart : ∀ c c' ph ph' lease, w.joins.get? c = some ph → w.joins.get? c' = some ph' →
    ph.minted = some lease → ph'.minted = some lease → c = c'
  published : ∀ c lease signals fresh, w.joins.get? c = some (.published lease signals fresh) →
    w.owners.renewers.get? lease ≠ none
  known : ∀ lease, w.owners.renewers.get? lease ≠ none →
    lease.generation ≤ w.generation lease.key

theorem inv_init : init.Inv where
  proper sessionId entry h := by cases h
  told lease h := by cases h
  watching c ph lease lost draining h := by cases h
  reusing c lease lost h := by cases h
  minted c ph lease h := by cases h
  apart c c' ph ph' lease h := by cases h
  published c lease signals fresh h := by cases h
  known lease h := absurd rfl h

variable {w : OwnerPod}

theorem Inv.same (h : w.Inv) {w' : OwnerPod} (howners : w'.owners = w.owners)
    (hjoins : w'.joins = w.joins) (hgenerations : w'.generations = w.generations) : w'.Inv := by
  cases w'
  subst howners hjoins hgenerations
  exact ⟨h.proper, h.told, h.watching, h.reusing, h.minted, h.apart, h.published, h.known⟩

section Move

variable {x : Option JoinPhase} {joins : Table Nat JoinPhase}

theorem Inv.move (h : w.Inv)
    (hjoin : ∀ c', joins.get? c' = if c' = c then x else w.joins.get? c')
    (hwatching : ∀ ph lease lost draining, x = some ph →
      ph.watching = some (lease, lost, draining) → w.owners.Covered lease lost draining)
    (hreusing : ∀ lease lost, x = some (.reusing lease lost) →
      ∃ t, lost = some t ∧ (t = .lost lease ∨ t ∈ w.owners.cancelled))
    (hminted : ∀ ph lease, x = some ph → ph.minted = some lease →
      (w.owners.renewers.get? lease = none ∧ lease.generation ≤ w.generation lease.key) ∧
        ∀ c' ph', c' ≠ c → w.joins.get? c' = some ph' → ph'.minted ≠ some lease)
    (hpublished : ∀ lease signals fresh, x = some (.published lease signals fresh) →
      w.owners.renewers.get? lease ≠ none) : Inv { w with joins := joins } := by
  refine ⟨h.proper, h.told, ?_, ?_, ?_, ?_, ?_, h.known⟩
  · intro c' ph lease lost draining hc'
    change joins.get? c' = some ph at hc'
    rw [hjoin] at hc'
    split_ifs at hc'
    · exact hwatching ph lease lost draining hc'
    · exact h.watching c' ph lease lost draining hc'
  · intro c' lease lost hc'
    change joins.get? c' = _ at hc'
    rw [hjoin] at hc'
    split_ifs at hc'
    · exact hreusing lease lost hc'
    · exact h.reusing c' lease lost hc'
  · intro c' ph lease hc' hph
    change joins.get? c' = some ph at hc'
    rw [hjoin] at hc'
    split_ifs at hc'
    · exact (hminted ph lease hc' hph).1
    · exact h.minted c' ph lease hc' hph
  · intro c₁ c₂ ph₁ ph₂ lease h₁ h₂ hph₁ hph₂
    change joins.get? c₁ = some ph₁ at h₁
    change joins.get? c₂ = some ph₂ at h₂
    rw [hjoin] at h₁ h₂
    split_ifs at h₁ h₂ with hc₁ hc₂ hc₂
    · rw [hc₁, hc₂]
    · exact absurd hph₂ ((hminted ph₁ lease h₁ hph₁).2 c₂ ph₂ hc₂ h₂)
    · exact absurd hph₁ ((hminted ph₂ lease h₂ hph₂).2 c₁ ph₁ hc₁ h₁)
    · exact h.apart c₁ c₂ ph₁ ph₂ lease h₁ h₂ hph₁ hph₂
  · intro c' lease signals fresh hc'
    change joins.get? c' = _ at hc'
    rw [hjoin] at hc'
    split_ifs at hc'
    · exact hpublished lease signals fresh hc'
    · exact h.published c' lease signals fresh hc'

theorem Inv.pass (h : w.Inv)
    (hjoin : ∀ c', joins.get? c' = if c' = c then x else w.joins.get? c')
    (hwatching : ∀ ph, x = some ph → ph.watching = none)
    (hreusing : ∀ lease lost, x ≠ some (.reusing lease lost))
    (hminted : ∀ ph lease, x = some ph → ph.minted = some lease →
      ∃ ph₀, w.joins.get? c = some ph₀ ∧ ph₀.minted = some lease) :
    Inv { w with joins := joins } := by
  refine h.move hjoin ?_ (fun lease lost hph => absurd hph (hreusing lease lost)) ?_ ?_
  · intro ph lease lost draining hph hph'
    rw [hwatching ph hph] at hph'
    cases hph'
  · -- A handler that keeps its lease is still the only one that has it.
    intro ph lease hph hph'
    obtain ⟨ph₀, hc, hph₀⟩ := hminted ph lease hph hph'
    refine ⟨h.minted c ph₀ lease hc hph₀, fun c' ph' hne hc' hph' => hne ?_⟩
    exact h.apart c' c ph' ph₀ lease hc' hc hph' hph₀
  · intro lease signals fresh hph
    have hnone := hwatching _ hph
    cases hnone

end Move

theorem Inv.leave (h : w.Inv) (c : Nat) : Inv { w with joins := w.joins.remove c } :=
  h.pass (c := c) (x := none) (fun _ => Table.get?_remove ..) nofun nofun nofun

theorem Inv.enter (h : w.Inv) (c : Nat) {x : JoinPhase} (hwatching : x.watching = none)
    (hreusing : ∀ lease lost, x ≠ .reusing lease lost) (hminted : x.minted = none) :
    (w.setJoin c x).Inv := by
  refine h.pass (fun c' => Table.get?_set ..) ?_ ?_ ?_
  · rintro ph ⟨⟩
    exact hwatching
  · exact fun lease lost hph => hreusing lease lost (Option.some.inj hph)
  · rintro ph lease ⟨⟩ hph
    rw [hminted] at hph
    cases hph

theorem Inv.connect (h : w.Inv) {lease : HuddleLease} {lost draining : Option Token}
    (hcovered : w.owners.Covered lease lost draining) :
    (w.setJoin c (.connected lease lost draining)).Inv := by
  refine h.move (fun c' => Table.get?_set ..) ?_ nofun ?_ nofun
  · rintro ph l lost' draining' ⟨⟩ ⟨⟩
    exact hcovered
  · rintro ph l ⟨⟩ ⟨⟩

theorem Inv.registry (h : w.Inv) {owners : HuddleOwnerRegistry} (hproper : owners.Proper)
    (htold : owners.Told)
    (hcovered : ∀ c ph lease lost draining, w.joins.get? c = some ph →
      ph.watching = some (lease, lost, draining) → w.owners.Covered lease lost draining →
      owners.Covered lease lost draining)
    (hcancelled : ∀ t ∈ w.owners.cancelled, t ∈ owners.cancelled)
    (hrenewers : ∀ lease, w.owners.renewers.get? lease ≠ none →
      owners.renewers.get? lease ≠ none)
    (hminted : ∀ c ph lease, w.joins.get? c = some ph → ph.minted = some lease →
      w.owners.renewers.get? lease = none → owners.renewers.get? lease = none)
    (hknown : ∀ lease, owners.renewers.get? lease ≠ none →
      w.owners.renewers.get? lease ≠ none ∨ lease.generation ≤ w.generation lease.key) :
    Inv { w with owners := owners } := by
  refine ⟨hproper, htold, ?_, ?_, ?_, h.apart, ?_, ?_⟩
  · exact fun c ph lease lost draining hc hph =>
      hcovered c ph _ _ _ hc hph (h.watching c ph lease lost draining hc hph)
  · intro c lease lost hc
    obtain ⟨t, rfl, ht⟩ := h.reusing c lease lost hc
    exact ⟨t, rfl, ht.imp_right (hcancelled t)⟩
  · intro c ph lease hc hph
    obtain ⟨hnone, hgeneration⟩ := h.minted c ph lease hc hph
    exact ⟨hminted c ph lease hc hph hnone, hgeneration⟩
  · exact fun c lease signals fresh hc => hrenewers _ (h.published c lease signals fresh hc)
  · intro lease hlease
    rcases hknown lease hlease with hold | hgeneration
    · exact h.known lease hold
    · exact hgeneration

theorem generation_grant (w : OwnerPod) (key key' : HuddleKey) (mine : Bool) :
    (w.grant key mine).1.generation key' =
      if key' = key then w.generation key + 1 else w.generation key' := by
  rw [generation, grant]
  dsimp only
  rw [Table.get?_set]
  split_ifs <;> rfl

theorem generation_le_grant (w : OwnerPod) (key key' : HuddleKey) (mine : Bool) :
    w.generation key' ≤ (w.grant key mine).1.generation key' := by
  rw [generation_grant]
  split_ifs with hkey
  · rw [hkey]
    exact Nat.le_succ _
  · exact Nat.le_refl _

theorem Inv.grant (h : w.Inv) (key : HuddleKey) (mine : Bool) : (w.grant key mine).1.Inv := by
  refine ⟨h.proper, h.told, h.watching, h.reusing, ?_, h.apart, h.published, ?_⟩
  · intro c ph lease hc hph
    obtain ⟨hnone, hgeneration⟩ := h.minted c ph lease hc hph
    exact ⟨hnone, hgeneration.trans (generation_le_grant w key lease.key mine)⟩
  · exact fun lease hlease => (h.known lease hlease).trans (generation_le_grant w key lease.key mine)

theorem inv_acquire (h : w.Inv) {key : HuddleKey} {lease : HuddleLease} (hkey : lease.key = key)
    (hgeneration : lease.generation = w.generation key + 1) :
    ((w.grant key true).1.setJoin c (.resolved lease true)).Inv := by
  have hnew : w.owners.renewers.get? lease = none := by
    by_contra hne
    have hle := h.known lease hne
    rw [hkey, hgeneration] at hle
    omega
  have hother : ∀ c' ph, w.joins.get? c' = some ph → ph.minted ≠ some lease := by
    intro c' ph hc' hph
    have hle := (h.minted c' ph lease hc' hph).2
    rw [hkey, hgeneration] at hle
    omega
  refine (h.grant key true).move (fun c' => Table.get?_set ..) ?_ nofun ?_ nofun
  · rintro ph l lost draining ⟨⟩ ⟨⟩
  · rintro ph l ⟨⟩ ⟨⟩
    refine ⟨⟨hnew, ?_⟩, fun c' ph' _ hc' => hother c' ph' hc'⟩
    rw [generation_grant, if_pos hkey, hgeneration]

/-! ## The condition -/

def isWatched (w : OwnerPod) (t : Token) : Bool :=
  w.joins.toList.any fun x => x.2.watching.any fun y => y.2.1 = some t

/-- A handler that attaches finds no live entry of another lease. One that reuses finds the entry of
its own lease. An entry is released while nobody watches it. An entry whose loss is known may stand
in each place. -/
def keepsWatch (w : OwnerPod) : OwnerAction → Bool
  | .attach c =>
    match w.joins.get? c with
    | some (.admitted lease true) => w.owners.isDraining ||
        (w.owners.lostFor lease.sessionId).all fun t => w.owners.cancelled.contains t
    | _ => true
  | .lostFor c =>
    match w.joins.get? c with
    | some (.admitted lease false) =>
      (w.owners.lostFor lease.sessionId).any fun t =>
        t = .lost lease || w.owners.cancelled.contains t
    | _ => true
  | .drainFor c =>
    match w.joins.get? c with
    | some (.reusing lease lost) => (lost.any fun t => w.owners.cancelled.contains t) ||
        w.owners.lostFor lease.sessionId = some (.lost lease)
    | _ => true
  | .release c =>
    match w.joins.get? c with
    | some (.emptied lease) =>
      (w.owners.entries.get? lease.sessionId).all fun entry =>
        entry.generation ≠ lease.generation || w.owners.cancelled.contains entry.lost ||
          !w.isWatched entry.lost
    | _ => true
  | _ => true

/-! ## Steps -/

theorem inv_attach (h : w.Inv) {lease : HuddleLease}
    (hc : w.joins.get? c = some (.admitted lease true)) (hcond : w.keepsWatch (.attach c) = true) :
    ({ w with owners := (w.owners.publish lease).1 }.setJoin c
      (.published lease (w.owners.publish lease).2.1 (w.owners.publish lease).2.2)).Inv := by
  obtain ⟨hnew, hgeneration⟩ := h.minted c _ lease hc rfl
  have hcancel : .cancel lease ∉ w.owners.cancelled := fun hmem => h.told lease hmem hnew
  have hfree : w.owners.isDraining = true ∨ ∀ entry,
      w.owners.entries.get? lease.sessionId = some entry → entry.lost ∈ w.owners.cancelled := by
    unfold keepsWatch at hcond
    simp only [hc, Bool.or_eq_true, HuddleOwnerRegistry.lostFor] at hcond
    refine hcond.imp_right fun hall entry hentry => ?_
    rw [hentry] at hall
    simpa using hall
  obtain ⟨hproper, hcovered, hown, hrenewers, hcancelled⟩ :=
    HuddleOwnerRegistry.publish_spec h.proper hnew hcancel hfree
  -- The handler gives the lease away before the registry takes it.
  have hjoin : ∀ c', (w.joins.remove c).get? c' = if c' = c then none else w.joins.get? c' :=
    fun c' => Table.get?_remove ..
  have hgiven : Inv { w with joins := w.joins.remove c } := h.leave c
  have hset : ∀ l, (w.owners.publish lease).1.renewers.get? l =
      if l = lease then some true else w.owners.renewers.get? l := by
    intro l
    rw [hrenewers]
    exact Table.get?_set ..
  have htold : (w.owners.publish lease).1.Told := HuddleOwnerRegistry.told_publish h.told lease
  have htaken : Inv { { w with joins := w.joins.remove c } with
      owners := (w.owners.publish lease).1 } := by
    refine hgiven.registry hproper htold (fun _ _ _ _ _ _ _ => hcovered _ _ _) hcancelled ?_ ?_ ?_
    · intro l hl
      rw [hset]
      split_ifs
      · exact fun h => by cases h
      · exact hl
    · intro c' ph l hc' hph hl
      rw [hset]
      split_ifs with heq
      · rw [hjoin] at hc'
        split_ifs at hc' with hcc
        exact absurd (h.apart c' c ph _ l hc' hc hph (heq ▸ rfl)) hcc
      · exact hl
    · intro l hl
      rw [hset] at hl
      split_ifs at hl with heq
      · exact Or.inr (heq ▸ hgeneration)
      · exact Or.inl hl
  refine htaken.move (c := c) (x := some (.published lease (w.owners.publish lease).2.1
    (w.owners.publish lease).2.2)) ?_ ?_ ?_ ?_ ?_
  · intro c'
    change (w.joins.set c _).get? c' = if c' = c then _ else (w.joins.remove c).get? c'
    rw [Table.get?_set, hjoin]
    split_ifs <;> rfl
  · intro ph l lost draining hph hwatching
    cases hph
    cases hwatching
    exact hown
  · exact fun l lost hph => by cases hph
  · intro ph l hph hminted
    cases hph
    cases hminted
  · intro l signals fresh hph
    cases hph
    change (w.owners.publish lease).1.renewers.get? lease ≠ none
    rw [hset, if_pos rfl]
    exact fun h => by cases h

theorem Inv.retokened (h : w.Inv) {owners : HuddleOwnerRegistry} (hproper : owners.Proper)
    (htold : owners.Told)
    (hcovered : ∀ c ph lease lost draining, w.joins.get? c = some ph →
      ph.watching = some (lease, lost, draining) → w.owners.Covered lease lost draining →
      owners.Covered lease lost draining)
    (hcancelled : ∀ t ∈ w.owners.cancelled, t ∈ owners.cancelled)
    (hrenewers : owners.renewers = w.owners.renewers) : Inv { w with owners := owners } := by
  refine h.registry hproper htold hcovered hcancelled ?_ ?_ ?_
  · exact fun lease hlease => hrenewers ▸ hlease
  · exact fun _ _ lease _ _ hlease => hrenewers ▸ hlease
  · exact fun lease hlease => Or.inl (hrenewers ▸ hlease)

theorem inv_recheck (h : w.Inv) {lease : HuddleLease} {signals : HuddleOwnerSignals} {fresh : Bool}
    (hc : w.joins.get? c = some (.published lease signals fresh)) :
    ({ w with owners := if fresh then w.owners.recheck lease else w.owners }.setJoin c
      (.connected lease (some signals.lost) (some signals.draining))).Inv := by
  have hregistry : Inv { w with owners := if fresh then w.owners.recheck lease else w.owners } := by
    split_ifs
    · obtain ⟨hproper, hcovered, hrenewers, hcancelled⟩ :=
        HuddleOwnerRegistry.recheck_spec h.proper lease
      have htold := HuddleOwnerRegistry.told_recheck h.told h.proper (h.published c _ _ _ hc)
      exact h.retokened hproper htold (fun _ _ _ _ _ _ _ => hcovered _ _ _) hcancelled hrenewers
    · exact h
  exact hregistry.connect (hregistry.watching c _ lease _ _ hc rfl)

theorem inv_lostFor (h : w.Inv) {lease : HuddleLease}
    (hc : w.joins.get? c = some (.admitted lease false)) (hcond : w.keepsWatch (.lostFor c) = true) :
    (w.setJoin c (.reusing lease (w.owners.lostFor lease.sessionId))).Inv := by
  refine h.move (fun c' => Table.get?_set ..) ?_ ?_ ?_ nofun
  · rintro ph l lost draining ⟨⟩ ⟨⟩
  · rintro l lost ⟨⟩
    unfold keepsWatch at hcond
    simp only [hc] at hcond
    obtain ⟨t, ht, hwhich⟩ := (Option.any_eq_true _ _).mp hcond
    refine ⟨t, ht, ?_⟩
    simpa using hwhich
  · rintro ph l ⟨⟩ ⟨⟩

theorem inv_drainFor (h : w.Inv) {lease : HuddleLease} {lost : Option Token}
    (hc : w.joins.get? c = some (.reusing lease lost)) (hcond : w.keepsWatch (.drainFor c) = true) :
    (w.setJoin c (.connected lease lost (w.owners.drainFor lease.sessionId))).Inv := by
  refine h.connect ?_
  obtain ⟨t, rfl, ht⟩ := h.reusing c lease lost hc
  by_cases hmem : t ∈ w.owners.cancelled
  · exact Or.inl ⟨t, Or.inl rfl, hmem⟩
  · obtain rfl := ht.resolve_right hmem
    unfold keepsWatch at hcond
    simp only [hc, Option.any_some, Bool.or_eq_true, List.contains_eq_mem, decide_eq_true_eq]
      at hcond
    have hlost := hcond.resolve_left hmem
    obtain ⟨entry, hentry, heq⟩ := Option.map_eq_some_iff.mp hlost
    obtain ⟨l, -, rfl, ⟨running, hrunning, hstopped⟩, hcancel⟩ :=
      h.proper lease.sessionId entry hentry
    obtain rfl : l = lease := Token.lost.inj heq
    cases running with
    | false => exact absurd (hstopped rfl) hmem
    | true =>
      refine Or.inr ⟨rfl, ?_, hrunning, hcancel⟩
      rw [HuddleOwnerRegistry.drainFor, hentry]
      rfl

theorem inv_release (h : w.Inv) {lease : HuddleLease} (hc : w.joins.get? c = some (.emptied lease))
    (hcond : w.keepsWatch (.release c) = true) : Inv { w with
      owners := w.owners.release lease.sessionId lease.generation
      joins := w.joins.remove c } := by
  have hregistry : Inv { w with
      owners := w.owners.release lease.sessionId lease.generation } := by
    refine h.retokened
      (HuddleOwnerRegistry.proper_retract h.proper _ _ (by simp [HuddleOwnerRegistry.entryOf]))
      (HuddleOwnerRegistry.told_retract h.told h.proper _ _ (by simp [HuddleOwnerRegistry.entryOf]))
      ?_ (HuddleOwnerRegistry.cancelled_retract _ _ _) (HuddleOwnerRegistry.renewers_retract _ _ _)
    intro c' ph l lost draining hc' hph hcovered
    refine hcovered.release h.proper fun entry hentry hgeneration => ?_
    unfold keepsWatch at hcond
    simp only [hc, hentry, Option.all_some, Bool.or_eq_true, decide_eq_true_eq, List.contains_eq_mem,
      Bool.not_eq_true'] at hcond
    rcases hcond with (hne | hmem) | hfree
    · exact absurd hgeneration hne
    · exact Or.inl hmem
    · refine Or.inr fun hlost => ?_
      have hnone := List.any_eq_false.mp hfree (c', ph) ((Table.mem_toList _ _ _).mpr hc')
      rw [hph, hlost] at hnone
      simp at hnone
  exact hregistry.leave c

theorem inv_end (h : w.Inv) {lease : HuddleLease} (tokens : List Token)
    (hrunning : w.owners.renewers.get? lease = some true) (htokens : ∀ l, .cancel l ∉ tokens)
    (hwhy : .lost lease ∈ tokens ∨ .cancel lease ∈ w.owners.cancelled) :
    Inv { w with owners := { w.owners with
      renewers := w.owners.renewers.set lease false
      cancelled := tokens ++ w.owners.cancelled } } := by
  obtain ⟨hproper, hcovered⟩ := HuddleOwnerRegistry.end_spec h.proper htokens hwhy
  have hset : ∀ l, (w.owners.renewers.set lease false).get? l =
      if l = lease then some false else w.owners.renewers.get? l := fun l => Table.get?_set ..
  have hsame : ∀ l, (w.owners.renewers.set lease false).get? l = none ↔
      w.owners.renewers.get? l = none := by
    intro l
    rw [hset]
    split_ifs with hl
    · rw [hl, hrunning]
      simp
    · rfl
  refine h.registry hproper ?_ (fun _ _ _ _ _ _ _ => hcovered _ _ _)
    (fun t ht => List.mem_append_right _ ht) ?_ ?_ ?_
  · intro l hmem hl
    rcases List.mem_append.mp hmem with hmem | hmem
    · exact htokens l hmem
    · exact h.told l hmem ((hsame l).mp hl)
  · exact fun l hl hnone => hl ((hsame l).mp hnone)
  · exact fun _ _ l _ _ hl => (hsame l).mpr hl
  · exact fun l hl => Or.inl fun hnone => hl ((hsame l).mpr hnone)

theorem after_spec {ph ph' : JoinPhase} {now : Option Phase} {evicted : Bool}
    (h : ph.after now evicted = some ph') : ph'.watching = none ∧
      (∀ lease lost, ph' ≠ .reusing lease lost) ∧
      ∀ lease, ph'.minted = some lease → ph.minted = some lease := by
  cases ph with
  | resolved lease acquired =>
    simp only [JoinPhase.after] at h
    split at h <;> cases h <;> refine ⟨rfl, by simp, fun l hl => ?_⟩
    · exact hl
    · exact hl
    · cases acquired with
      | true => exact hl
      | false => cases hl
    · cases hl
  | connected lease lost draining =>
    cases h
    exact ⟨rfl, by simp, fun l hl => by cases hl⟩
  | leaving lease =>
    simp only [JoinPhase.after] at h
    split at h
    · cases h
      exact ⟨rfl, by simp, fun l hl => by cases hl⟩
    · split_ifs at h
      cases h
      exact ⟨rfl, by simp, fun l hl => by cases hl⟩
  | _ => cases h

theorem inv_room (h : w.Inv) {a : ConnAction} {ph : JoinPhase} {now : Option Phase}
    {evicted : Bool} {huddles : Table HuddleKey Pod} (hc : w.joins.get? a.conn = some ph) :
    Inv { w with
      huddles := huddles
      joins :=
        match ph.after now evicted with
        | some ph => w.joins.set a.conn ph
        | none => w.joins.remove a.conn } := by
  have hmove : ∀ joins : Table Nat JoinPhase, (∀ c', joins.get? c' =
      if c' = a.conn then ph.after now evicted else w.joins.get? c') →
      Inv { w with joins := joins } := by
    intro joins hjoin
    refine h.pass hjoin (fun ph' hph' => (after_spec hph').1) ?_ ?_
    · exact fun lease lost hph' => absurd rfl ((after_spec hph').2.1 lease lost)
    · exact fun ph' lease hph' hminted => ⟨ph, hc, (after_spec hph').2.2 lease hminted⟩
  refine (hmove _ fun c' => ?_).same rfl rfl rfl
  cases ph.after now evicted with
  | none => exact Table.get?_remove ..
  | some ph' => exact Table.get?_set ..

theorem inv_step {w w' : OwnerPod} {a : OwnerAction} (h : w.Inv) (hcond : w.keepsWatch a = true)
    (hstep : ownerStep w a = some w') : w'.Inv := by
  cases a with
  | start c key =>
    simp only [ownerStep] at hstep
    split_ifs at hstep
    cases hstep
    exact h.enter c rfl (by simp) rfl
  | lookup c =>
    simp only [ownerStep] at hstep
    split at hstep
    · split at hstep
      · cases hstep
        exact h.enter c rfl (by simp) rfl
      · cases hstep
    · cases hstep
  | acquire c =>
    simp only [ownerStep] at hstep
    split at hstep
    · next key hc =>
      split at hstep
      · cases hstep
        exact inv_acquire h rfl rfl
      · cases hstep
    · cases hstep
  | ready c =>
    simp only [ownerStep] at hstep
    split at hstep
    · split at hstep
      · cases hstep
        exact h.enter c rfl (by simp) rfl
      · cases hstep
        exact h.enter c rfl (by simp) rfl
    · cases hstep
  | giveUp c =>
    simp only [ownerStep] at hstep
    split at hstep
    · cases hstep
      exact h.leave c
    · cases hstep
  | room a =>
    simp only [ownerStep] at hstep
    split at hstep
    · cases hstep
    · next ph hc =>
      split at hstep
      · cases hstep
      · split at hstep
        · cases hstep
        · cases hstep
          exact inv_room h hc
  | attach c =>
    simp only [ownerStep] at hstep
    split at hstep
    · next lease hc =>
      cases hstep
      exact inv_attach h hc hcond
    · cases hstep
  | recheck c =>
    simp only [ownerStep] at hstep
    split at hstep
    · next lease signals fresh hc =>
      cases hstep
      exact inv_recheck h hc
    · cases hstep
  | lostFor c =>
    simp only [ownerStep] at hstep
    split at hstep
    · next lease hc =>
      cases hstep
      exact inv_lostFor h hc hcond
    · cases hstep
  | drainFor c =>
    simp only [ownerStep] at hstep
    split at hstep
    · next lease lost hc =>
      cases hstep
      exact inv_drainFor h hc hcond
    · cases hstep
  | release c =>
    simp only [ownerStep] at hstep
    split at hstep
    · next lease hc =>
      cases hstep
      exact inv_release h hc hcond
    · cases hstep
  | startDrain =>
    cases hstep
    exact ⟨h.proper, h.told, h.watching, h.reusing, h.minted, h.apart, h.published, h.known⟩
  | drain sessionId generation =>
    simp only [ownerStep] at hstep
    split_ifs at hstep
    cases hstep
    exact h.retokened
      (HuddleOwnerRegistry.proper_retract h.proper _ _ (by simp [HuddleOwnerRegistry.entryOf]))
      (HuddleOwnerRegistry.told_retract h.told h.proper _ _ (by simp [HuddleOwnerRegistry.entryOf]))
      (fun _ _ _ _ _ _ _ hcovered => hcovered.drain h.proper _ _)
      (HuddleOwnerRegistry.cancelled_retract _ _ _) (HuddleOwnerRegistry.renewers_retract _ _ _)
  | renew lease =>
    simp only [ownerStep] at hstep
    split at hstep
    · next hrunning =>
      split_ifs at hstep
      · cases hstep
        exact h
      · cases hstep
        exact inv_end h [.lost lease] hrunning (by simp) (Or.inl (by simp))
    · cases hstep
  | renewFails lease released =>
    simp only [ownerStep] at hstep
    split at hstep
    · next hrunning =>
      have hend := inv_end h [.lost lease] hrunning (by simp) (Or.inl (by simp))
      cases hstep
      split_ifs
      · exact hend.same rfl rfl rfl
      · exact hend
    · cases hstep
  | stop lease fails =>
    simp only [ownerStep] at hstep
    split at hstep
    · next hrunning =>
      split at hstep
      · next htold =>
        have hmem : .cancel lease ∈ w.owners.cancelled := by simpa using htold
        have hend := inv_end h [] hrunning (by simp) (Or.inr hmem)
        split_ifs at hstep
        · cases hstep
          exact hend
        · cases hstep
          exact hend.same rfl rfl rfl
        · cases hstep
          exact inv_end h [.lost lease] hrunning (by simp) (Or.inl (by simp))
      · cases hstep
    · cases hstep
  | expire key =>
    cases hstep
    exact h.same rfl rfl rfl
  | takeover key =>
    simp only [ownerStep] at hstep
    split_ifs at hstep
    cases hstep
    exact h.grant key false
  | register key generation peerId pubkey version =>
    have hsame : w'.owners = w.owners ∧ w'.joins = w.joins ∧ w'.generations = w.generations := by
      simp only [ownerStep] at hstep
      split at hstep
      · cases hstep
      · split at hstep
        · cases hstep
        · split at hstep
          · cases hstep
            exact ⟨rfl, rfl, rfl⟩
          · split at hstep
            · cases hstep
            · split at hstep
              · cases hstep
                exact ⟨rfl, rfl, rfl⟩
              · cases hstep
                exact ⟨rfl, rfl, rfl⟩
    exact h.same hsame.1 hsame.2.1 hsame.2.2
  | unregister key peerId =>
    have hsame : w'.owners = w.owners ∧ w'.joins = w.joins ∧ w'.generations = w.generations := by
      simp only [ownerStep] at hstep
      split at hstep
      · split at hstep
        · cases hstep
          exact ⟨rfl, rfl, rfl⟩
        · split at hstep
          · cases hstep
          · cases hstep
            exact ⟨rfl, rfl, rfl⟩
      · cases hstep
    exact h.same hsame.1 hsame.2.1 hsame.2.2

/-! ## Runs -/

/-- Who is connected as a peer of this owner watches a cancelled token unless the renewer of his
lease runs. -/
def Watched (w : OwnerPod) : Prop :=
  ∀ c lease lost draining, w.joins.get? c = some (.connected lease lost draining) →
    w.owners.renewers.get? lease ≠ some true →
    ∃ t, (lost = some t ∨ draining = some t) ∧ t ∈ w.owners.cancelled

theorem Inv.watched (h : w.Inv) : w.Watched := by
  intro c lease lost draining hc hstopped
  rcases h.watching c _ lease lost draining hc rfl with hcancelled | ⟨-, -, hrunning, -⟩
  · exact hcancelled
  · exact absurd hrunning hstopped

/-- As long as the entries that handlers find and release are their own, no peer is without an
owner. -/
theorem watched_of_keepsWatch {as : List OwnerAction} {w : OwnerPod}
    (hmeets : Meets ownerStep (fun w a => w.keepsWatch a = true) init as)
    (hrun : run ownerStep init as = some w) : w.Watched :=
  (run_invariant_of_meets Inv (fun _ _ _ hinv hcond hstep => inv_step hinv hcond hstep)
    inv_init hmeets hrun).watched

def demoJoins : List OwnerAction :=
  [.start 0 (7, 1), .acquire 0, .room (.getOrCreate 0), .room (.check 0 false),
    .room (.addPeer 0 10 "a" 2 none), .attach 0, .recheck 0,
    .start 1 (7, 1), .lookup 1, .ready 1, .room (.getOrCreate 1), .room (.check 1 false),
    .room (.addPeer 1 11 "b" 2 none)]

def demoLoss : List OwnerAction :=
  demoJoins ++ [OwnerAction.lostFor 1, .drainFor 1, .expire (7, 1), .takeover (7, 1), .renew ⟨7, 1, 1⟩]

theorem watched_over_loss : ∃ w, run ownerStep init demoLoss = some w ∧ w.Watched ∧
    w.joins.get? 1 =
      some (.connected ⟨7, 1, 1⟩ (some (.lost ⟨7, 1, 1⟩)) (some (.draining ⟨7, 1, 1⟩))) ∧
    w.owners.renewers.get? ⟨7, 1, 1⟩ = some false := by
  have hdemo : ((run ownerStep init demoLoss).any fun w =>
      decide (w.joins.get? 1 =
        some (.connected ⟨7, 1, 1⟩ (some (.lost ⟨7, 1, 1⟩)) (some (.draining ⟨7, 1, 1⟩)))) &&
      decide (w.owners.renewers.get? ⟨7, 1, 1⟩ = some false)) = true := by decide +kernel
  have hmeets : Meets ownerStep (fun w a => w.keepsWatch a = true) init demoLoss := by
    decide +kernel
  obtain ⟨w, hrun, h⟩ := (Option.any_eq_true _ _).mp hdemo
  rw [Bool.and_eq_true, decide_eq_true_eq, decide_eq_true_eq] at h
  exact ⟨w, hrun, watched_of_keepsWatch hmeets hrun, h⟩

def demoDrain : List OwnerAction :=
  demoJoins ++ [OwnerAction.startDrain, .drain 1 1, .lostFor 1, .drainFor 1, .stop ⟨7, 1, 1⟩ false]

theorem drain_leaves_peer_unwatched : ∃ w, run ownerStep init demoDrain = some w ∧
    w.joins.get? 1 = some (.connected ⟨7, 1, 1⟩ none none) ∧
    w.owners.renewers.get? ⟨7, 1, 1⟩ = some false ∧ ¬ w.Watched := by
  have hdemo : ((run ownerStep init demoDrain).any fun w =>
      decide (w.joins.get? 1 = some (.connected ⟨7, 1, 1⟩ none none)) &&
      decide (w.owners.renewers.get? ⟨7, 1, 1⟩ = some false)) = true := by decide +kernel
  obtain ⟨w, hrun, h⟩ := (Option.any_eq_true _ _).mp hdemo
  rw [Bool.and_eq_true, decide_eq_true_eq, decide_eq_true_eq] at h
  refine ⟨w, hrun, h.1, h.2, fun hwatched => ?_⟩
  obtain ⟨t, ht, -⟩ := hwatched 1 ⟨7, 1, 1⟩ none none h.1 (by rw [h.2]; simp)
  rcases ht with ht | ht <;> cases ht

end OwnerPod

end Vingilot.Huddle
