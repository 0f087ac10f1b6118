import Vingilot.Audit.Service
import Vingilot.Lib.Machine

/-!
# The chains of the audit log

The holder of a community's lock alone can append to its chain, so the head it has read is still the
head when its row is committed.
-/

namespace Vingilot.Audit

variable {sha256 : List UInt8 → List UInt8} {lockKey : CommunityId → BitVec 64}

/-! ## One chain -/

structure Chain (sha256 : List UInt8 → List UInt8) (c : CommunityId) (rows : List Row) : Prop where
  community : ∀ row ∈ rows, row.communityId = c
  seq : ∀ (k : Nat) row, rows[k]? = some row → row.seq.toInt = k + 1
  first : ∀ row, rows[0]? = some row → row.prevHash = none
  linked : rows.IsChain fun row row' => row'.prevHash = some row.hash
  hashed : ∀ row ∈ rows, ∃ e : AuditEntry, row = e.toRow ∧ computeHash sha256 e = e.hash

theorem Chain.nil (c : CommunityId) : Chain sha256 c [] := by
  refine ⟨?_, ?_, ?_, List.IsChain.nil, ?_⟩
  · intro row h; cases h
  · intro k row h; cases h
  · intro row h; cases h
  · intro row h; cases h

variable {rows : List Row}

theorem Chain.append {c : CommunityId} {e : AuditEntry} (h : Chain sha256 c rows)
    (hcommunity : e.communityId = c) (hseq : e.seq.toInt = rows.length + 1)
    (hprev : e.prevHash = rows.getLast?.map (·.hash)) (hhash : computeHash sha256 e = e.hash) :
    Chain sha256 c (rows ++ [e.toRow]) := by
  refine ⟨?_, ?_, ?_, ?_, ?_⟩
  · intro row hrow
    rcases List.mem_append.mp hrow with hrow | hrow
    · exact h.community row hrow
    · rw [List.mem_singleton.mp hrow]
      exact hcommunity
  · intro k row hrow
    by_cases hk : k < rows.length
    · rw [List.getElem?_append_left hk] at hrow
      exact h.seq k row hrow
    · rw [List.getElem?_append_right (by omega), List.getElem?_singleton] at hrow
      split_ifs at hrow with hlast
      cases hrow
      have hlength : k = rows.length := by omega
      rw [hlength]
      exact hseq
  · intro row hrow
    cases rows with
    | nil =>
      cases hrow
      exact hprev
    | cons r rs => exact h.first row (by simpa using hrow)
  · rw [List.isChain_append]
    refine ⟨h.linked, List.isChain_singleton _, ?_⟩
    intro row hrow row' hrow'
    cases hrow'
    rw [Option.mem_def] at hrow
    rw [hrow] at hprev
    exact hprev
  · intro row hrow
    rcases List.mem_append.mp hrow with hrow | hrow
    · exact h.hashed row hrow
    · exact ⟨e, List.mem_singleton.mp hrow, hhash⟩

theorem Chain.sorted {c : CommunityId} (h : Chain sha256 c rows) :
    rows.Pairwise fun row row' => row.seq.toInt < row'.seq.toInt := by
  rw [List.pairwise_iff_getElem]
  intro i j hi hj hij
  have hseqi := h.seq i rows[i] (List.getElem?_eq_getElem hi)
  have hseqj := h.seq j rows[j] (List.getElem?_eq_getElem hj)
  omega

theorem Chain.maxSeq {c : CommunityId} (h : Chain sha256 c rows) : maxSeq rows = rows.getLast? := by
  unfold Audit.maxSeq
  induction rows using List.reverseRecOn with
  | nil => rfl
  | append_singleton rows row ih =>
    rw [List.argmax_concat, List.getLast?_concat]
    have hfront := h.sorted
    rw [List.pairwise_append] at hfront
    cases hmax : @List.argmax Row Int Int.instLinearOrder.toPreorder Int.decLt
        (fun row => row.seq.toInt) rows with
    | none => rfl
    | some row' =>
      have hmem : row' ∈ rows := List.argmax_mem hmax
      exact if_pos (hfront.2.2 row' hmem row (List.mem_singleton_self row))

theorem Chain.headOf {c : CommunityId} (h : Chain sha256 c (rowsOf rows c)) :
    headOf rows c = (rowsOf rows c).getLast?.map fun row => (row.seq, row.hash) := by
  rw [Audit.headOf, h.maxSeq]

theorem toInt_add_one {n : Int64} (h : n ≠ Int64.maxValue) : (n + 1).toInt = n.toInt + 1 := by
  have hne : n.toInt ≠ 2 ^ 63 - 1 := fun heq => h (Int64.toInt_inj.mp heq)
  have hlt := n.toInt_lt
  have hge := n.le_toInt
  rw [Int64.toInt_add, Int64.toInt_one]
  exact Int.bmod_eq_of_le_mul_two (by omega) (by omega)

theorem Chain.next {c : CommunityId} (h : Chain sha256 c (rowsOf rows c)) {entry : NewAuditEntry}
    (hcommunity : entry.communityId = c) {now : DateTime} {e : AuditEntry}
    (hnext : nextEntry sha256 entry (Audit.headOf rows c) now = some e) :
    Chain sha256 c (rowsOf rows c ++ [e.toRow]) := by
  rw [h.headOf] at hnext
  unfold nextEntry at hnext
  dsimp only at hnext
  split_ifs at hnext with hmax
  cases hnext
  refine h.append hcommunity ?_ ?_ rfl
  · rw [toInt_add_one hmax]
    cases hlast : (rowsOf rows c).getLast? with
    | none =>
      rw [List.getLast?_eq_none_iff] at hlast
      rw [hlast]
      rfl
    | some row =>
      rw [List.getLast?_eq_getElem?] at hlast
      have hseq := h.seq _ row hlast
      have hpos : (rowsOf rows c).length ≠ 0 := by
        intro hzero
        rw [hzero, List.length_eq_zero_iff.mp hzero] at hlast
        cases hlast
      simp only [Option.map_some, Option.getD_some]
      omega
  · cases (rowsOf rows c).getLast? with
    | none => rfl
    | some row => rfl

/-! ## Verification -/

theorem isChain_filter_between {R : Row → Row → Prop}
    (hsorted : rows.Pairwise fun row row' => row.seq.toInt < row'.seq.toInt)
    (hchain : rows.IsChain R) (fromSeq toSeq : Int64) :
    (rows.filter (between fromSeq toSeq)).IsChain R := by
  induction rows with
  | nil => exact List.IsChain.nil
  | cons row rows ih =>
    rw [List.pairwise_cons] at hsorted
    have hrest := ih hsorted.2 hchain.tail
    by_cases hrow : between fromSeq toSeq row = true
    · rw [List.filter_cons_of_pos hrow, List.isChain_cons]
      refine ⟨?_, hrest⟩
      intro row' hrow'
      cases rows with
      | nil => cases hrow'
      | cons next rows =>
        -- What comes right after the row is in the interval too, as `row'` is not before it.
        have hmem : row' ∈ next :: rows := by
          have := List.mem_of_mem_head? hrow'
          exact (List.mem_filter.mp this).1
        have hlate : between fromSeq toSeq row' = true := by
          have := List.mem_of_mem_head? hrow'
          exact (List.mem_filter.mp this).2
        have hnext : between fromSeq toSeq next = true := by
          have hbefore := hsorted.1 next List.mem_cons_self
          have hafter : next.seq.toInt ≤ row'.seq.toInt := by
            rcases List.mem_cons.mp hmem with rfl | hlater
            · exact Int.le_refl _
            · exact Int.le_of_lt ((List.pairwise_cons.mp hsorted.2).1 row' hlater)
          simp only [between, decide_eq_true_eq] at hrow hlate ⊢
          omega
        rw [List.filter_cons_of_pos hnext] at hrow'
        cases hrow'
        exact (List.isChain_cons_cons.mp hchain).1
    · rw [List.filter_cons_of_neg hrow]
      exact hrest

theorem verifyRows_ok (expectedPrev : Option (List UInt8))
    (hfirst : ∀ expected ∈ expectedPrev, ∀ row ∈ rows.head?, row.prevHash = some expected)
    (hlinked : rows.IsChain fun row row' => row'.prevHash = some row.hash)
    (hhashed : ∀ row ∈ rows, ∃ e : AuditEntry, row = e.toRow ∧ computeHash sha256 e = e.hash) :
    verifyRows sha256 expectedPrev rows = .ok true := by
  induction rows generalizing expectedPrev with
  | nil => rfl
  | cons row rows ih =>
    obtain ⟨e, rfl, hhash⟩ := hhashed row List.mem_cons_self
    have hnext := ih (some e.hash)
      (by
        intro expected hexpected row' hrow'
        cases hexpected
        exact (List.isChain_cons.mp hlinked).1 row' hrow')
      hlinked.tail (fun row' hrow' => hhashed row' (List.mem_cons_of_mem _ hrow'))
    have hprev : (expectedPrev.any fun expected => e.prevHash ≠ some expected) = false := by
      cases expectedPrev with
      | none => rfl
      | some expected =>
        have hexpected : e.prevHash = some expected := hfirst expected rfl e.toRow rfl
        simp [hexpected]
    rw [verifyRows, rowToAuditEntry_toRow]
    simp only [hprev, hhash, ne_eq, not_true_eq_false, if_false, hnext, Bool.false_eq_true]

theorem Chain.verifyChain {c : CommunityId} (h : Chain sha256 c (rowsOf rows c))
    {fromSeq toSeq : Int64} (hrange : ∃ row ∈ rowsOf rows c, between fromSeq toSeq row = true) :
    Audit.verifyChain sha256 rows c fromSeq toSeq = .ok true := by
  have hsorted : ((rowsOf rows c).filter (between fromSeq toSeq)).Pairwise
      fun row row' => row.seq.toInt ≤ row'.seq.toInt :=
    (h.sorted.filter _).imp fun hlt => Int.le_of_lt hlt
  obtain ⟨row, hrow, hbetween⟩ := hrange
  have hne : ((rowsOf rows c).filter (between fromSeq toSeq)).isEmpty = false := by
    rw [List.isEmpty_eq_false_iff]
    exact List.ne_nil_of_mem (List.mem_filter.mpr ⟨hrow, hbetween⟩)
  unfold Audit.verifyChain
  rw [hsorted.insertionSort_eq]
  dsimp only
  rw [hne, if_neg Bool.false_ne_true]
  refine verifyRows_ok _ (by rintro expected ⟨⟩) (isChain_filter_between h.sorted h.linked _ _) ?_
  exact fun row hrow => h.hashed row (List.mem_filter.mp hrow).1

/-! ## What a step does -/

variable {w' : World} {a : Action}

theorem step_cases {w : World} (h : step sha256 lockKey w a = some w') :
    (∃ entry, w.calls.get? a.id = none ∧ a.op = .call entry ∧ entry.communityId = a.communityId ∧
      w' = { w with calls := w.calls.set a.id ⟨entry, .waiting⟩ }) ∨
    ∃ call, w.calls.get? a.id = some call ∧
      ((a.op = .lock ∧ w.lockFree lockKey a.communityId = true ∧
        w' = w.setStage a.id call .locked) ∨
      (call.stage = .locked ∧ a.op = .readHead ∧
        w' = w.setStage a.id call (.headRead (headOf w.rows call.entry.communityId))) ∨
      (∃ head now e, call.stage = .headRead head ∧ a.op = .insert now ∧
        nextEntry sha256 call.entry head now = some e ∧ w.insertable e.toRow = true ∧
        w' = w.setStage a.id call (.inserted e.toRow)) ∨
      (∃ row, call.stage = .inserted row ∧ a.op = .commit ∧
        w' = { w.setStage a.id call .committed with rows := w.rows ++ [row] }) ∨
      (call.stage.holding = true ∧ a.op = .fail ∧ w' = w.setStage a.id call .failed) ∨
      (call.stage.holding = true ∧ a.op = .unlock ∧ w' = w.setStage a.id call .done)) := by
  unfold step at h
  split at h
  · rename_i entry hnone hop
    split_ifs at h with hcommunity
    exact .inl ⟨entry, hnone, hop, hcommunity, (Option.some.inj h).symm⟩
  · cases h
  · rename_i call hcall
    refine .inr ⟨call, hcall, ?_⟩
    split at h
    · rename_i hstage hop
      split_ifs at h with hfree
      exact .inl ⟨hop, hfree, (Option.some.inj h).symm⟩
    · rename_i hstage hop
      exact .inr (.inl ⟨hstage, hop, (Option.some.inj h).symm⟩)
    · rename_i head now hstage hop
      split at h
      · cases h
      · rename_i e hnext
        split_ifs at h with hinsert
        exact .inr (.inr (.inl ⟨head, now, e, hstage, hop, hnext, hinsert,
          (Option.some.inj h).symm⟩))
    · rename_i row hstage hop
      exact .inr (.inr (.inr (.inl ⟨row, hstage, hop, (Option.some.inj h).symm⟩)))
    · rename_i hstage hop
      exact .inr (.inr (.inr (.inr (.inl ⟨by rw [hstage]; rfl, hop, (Option.some.inj h).symm⟩))))
    · rename_i hstage hop
      exact .inr (.inr (.inr (.inr (.inl ⟨by rw [hstage]; rfl, hop, (Option.some.inj h).symm⟩))))
    · rename_i hstage hop
      exact .inr (.inr (.inr (.inr (.inl ⟨by rw [hstage]; rfl, hop, (Option.some.inj h).symm⟩))))
    · rename_i hstage hop
      exact .inr (.inr (.inr (.inr (.inr ⟨by rw [hstage]; rfl, hop, (Option.some.inj h).symm⟩))))
    · rename_i hstage hop
      exact .inr (.inr (.inr (.inr (.inr ⟨by rw [hstage]; rfl, hop, (Option.some.inj h).symm⟩))))
    · cases h

/-! ## What every step keeps -/

structure World.Inv (sha256 : List UInt8 → List UInt8) (lockKey : CommunityId → BitVec 64)
    (w : World) : Prop where
  own : ∀ id call, w.calls.get? id = some call → call.entry.communityId = id.1
  locked : ∀ id id' call call', w.calls.get? id = some call → w.calls.get? id' = some call' →
    call.stage.holding = true → call'.stage.holding = true → lockKey id.1 = lockKey id'.1 → id = id'
  chain : ∀ c, Chain sha256 c (rowsOf w.rows c)
  head : ∀ id call head, w.calls.get? id = some call → call.stage = .headRead head →
    head = headOf w.rows id.1
  next : ∀ id call row, w.calls.get? id = some call → call.stage = .inserted row →
    row.communityId = id.1 ∧ Chain sha256 id.1 (rowsOf w.rows id.1 ++ [row])

theorem inv_init : World.init.Inv sha256 lockKey := by
  refine ⟨?_, ?_, fun c => Chain.nil c, ?_, ?_⟩
  · intro id call h; cases h
  · intro id id' call call' h; cases h
  · intro id call head h; cases h
  · intro id call row h; cases h

theorem get?_setStage (w : World) (id id' : CallId) (call : Call) (stage : Stage) :
    (w.setStage id call stage).calls.get? id' =
      if id' = id then some { call with stage } else w.calls.get? id' :=
  Table.get?_set ..

variable {id : CallId} {call : Call}

theorem inv_setStage {w : World} (h : w.Inv sha256 lockKey) (hcall : w.calls.get? id = some call)
    (stage : Stage)
    (hfree : stage.holding = true → ∀ id' call', w.calls.get? id' = some call' →
      call'.stage.holding = true → lockKey id'.1 = lockKey id.1 → id' = id)
    (hhead : ∀ head, stage = .headRead head → head = headOf w.rows id.1)
    (hnext : ∀ row, stage = .inserted row →
      row.communityId = id.1 ∧ Chain sha256 id.1 (rowsOf w.rows id.1 ++ [row])) :
    (w.setStage id call stage).Inv sha256 lockKey := by
  refine ⟨?_, ?_, h.chain, ?_, ?_⟩
  · intro id' call' hget
    rw [get?_setStage] at hget
    split_ifs at hget with hid
    · cases hget
      rw [hid]
      exact h.own id call hcall
    · exact h.own id' call' hget
  · intro id₁ id₂ call₁ call₂ hget₁ hget₂ hhold₁ hhold₂ hkey
    rw [get?_setStage] at hget₁ hget₂
    split_ifs at hget₁ hget₂ with hid₁ hid₂ hid₂
    · rw [hid₁, hid₂]
    · cases hget₁
      rw [hid₁] at hkey ⊢
      exact (hfree hhold₁ id₂ call₂ hget₂ hhold₂ hkey.symm).symm
    · cases hget₂
      rw [hid₂] at hkey ⊢
      exact hfree hhold₂ id₁ call₁ hget₁ hhold₁ hkey
    · exact h.locked id₁ id₂ call₁ call₂ hget₁ hget₂ hhold₁ hhold₂ hkey
  · intro id' call' head hget hstage
    rw [get?_setStage] at hget
    split_ifs at hget with hid
    · cases hget
      rw [hid]
      exact hhead head hstage
    · exact h.head id' call' head hget hstage
  · intro id' call' row hget hstage
    rw [get?_setStage] at hget
    split_ifs at hget with hid
    · cases hget
      rw [hid]
      exact hnext row hstage
    · exact h.next id' call' row hget hstage

theorem World.Inv.alone {w : World} (h : w.Inv sha256 lockKey) (hcall : w.calls.get? id = some call)
    (hhold : call.stage.holding = true) :
    ∀ id' call', w.calls.get? id' = some call' → call'.stage.holding = true →
      lockKey id'.1 = lockKey id.1 → id' = id :=
  fun id' call' hget hhold' hkey => h.locked id' id call' call hget hcall hhold' hhold hkey

theorem alone_of_lockFree {w : World} {c : CommunityId} (h : w.lockFree lockKey c = true) :
    ∀ id' call', w.calls.get? id' = some call' → call'.stage.holding = true →
      lockKey id'.1 ≠ lockKey c := by
  intro id' call' hget hhold hkey
  have hfree := List.all_eq_true.mp h (id', call') ((Table.mem_toList _ _ _).mpr hget)
  simp [hhold, hkey] at hfree

theorem rowsOf_append (rows : List Row) (row : Row) (c : CommunityId) :
    rowsOf (rows ++ [row]) c =
      if row.communityId = c then rowsOf rows c ++ [row] else rowsOf rows c := by
  rw [rowsOf, List.filter_append]
  split_ifs with hc
  · rw [List.filter_cons_of_pos (by simpa using hc)]
    rfl
  · rw [List.filter_cons_of_neg (by simpa using hc), List.filter_nil, List.append_nil]
    rfl

theorem inv_commit {w : World} (h : w.Inv sha256 lockKey) (hcall : w.calls.get? id = some call)
    {row : Row} (hstage : call.stage = .inserted row) :
    World.Inv sha256 lockKey { w.setStage id call .committed with rows := w.rows ++ [row] } := by
  have hhold : call.stage.holding = true := by rw [hstage]; rfl
  obtain ⟨hcommunity, hchain⟩ := h.next id call row hcall hstage
  have hset := inv_setStage h hcall .committed (fun _ => h.alone hcall hhold)
    (fun head heq => by cases heq) (fun row heq => by cases heq)
  -- A call of the same community that is between its lock and its unlock is this one.
  have hother : ∀ id' call', (w.setStage id call .committed).calls.get? id' = some call' →
      call'.stage.holding = true → call'.stage ≠ .committed → id'.1 ≠ row.communityId := by
    intro id' call' hget hhold' hnot hc
    rw [get?_setStage] at hget
    split_ifs at hget with hid
    · cases hget
      exact hnot rfl
    · exact hid (h.alone hcall hhold id' call' hget hhold' (by rw [hc, hcommunity]))
  refine ⟨hset.own, hset.locked, ?_, ?_, ?_⟩
  · intro c
    rw [rowsOf_append]
    split_ifs with hc
    · rw [← hc, hcommunity]
      exact hchain
    · exact h.chain c
  · intro id' call' head hget hstage'
    have hne := hother id' call' hget (by rw [hstage']; rfl) (by rw [hstage']; exact fun h => by cases h)
    rw [headOf, rowsOf_append, if_neg hne.symm]
    exact hset.head id' call' head hget hstage'
  · intro id' call' row' hget hstage'
    have hne := hother id' call' hget (by rw [hstage']; rfl) (by rw [hstage']; exact fun h => by cases h)
    rw [rowsOf_append, if_neg hne.symm]
    exact hset.next id' call' row' hget hstage'

theorem inv_call {w : World} (h : w.Inv sha256 lockKey) {entry : NewAuditEntry}
    (hcommunity : entry.communityId = id.1) :
    World.Inv sha256 lockKey { w with calls := w.calls.set id ⟨entry, .waiting⟩ } := by
  have hold : ∀ {id' : CallId} {call' : Call},
      (w.calls.set id ⟨entry, .waiting⟩).get? id' = some call' → call'.stage ≠ .waiting →
        w.calls.get? id' = some call' := by
    intro id' call' hget hstage
    rw [Table.get?_set] at hget
    split_ifs at hget with hid
    · cases hget
      exact absurd rfl hstage
    · exact hget
  refine ⟨?_, ?_, h.chain, ?_, ?_⟩
  · intro id' call' hget
    rw [Table.get?_set] at hget
    split_ifs at hget with hid
    · cases hget
      rw [hid]
      exact hcommunity
    · exact h.own id' call' hget
  · intro id₁ id₂ call₁ call₂ hget₁ hget₂ hhold₁ hhold₂ hkey
    exact h.locked id₁ id₂ call₁ call₂ (hold hget₁ fun heq => by rw [heq] at hhold₁; cases hhold₁)
      (hold hget₂ fun heq => by rw [heq] at hhold₂; cases hhold₂) hhold₁ hhold₂ hkey
  · intro id' call' head hget hstage
    exact h.head id' call' head (hold hget fun heq => by rw [heq] at hstage; cases hstage) hstage
  · intro id' call' row hget hstage
    exact h.next id' call' row (hold hget fun heq => by rw [heq] at hstage; cases hstage) hstage

theorem step_inv {w : World} (h : w.Inv sha256 lockKey) (hstep : step sha256 lockKey w a = some w') :
    w'.Inv sha256 lockKey := by
  obtain ⟨entry, hnone, -, hcommunity, rfl⟩ | ⟨call, hcall, hcases⟩ := step_cases hstep
  · exact inv_call h hcommunity
  · obtain ⟨-, hfree, rfl⟩ | ⟨hstage, -, rfl⟩ | ⟨head, now, e, hstage, -, hnext, -, rfl⟩ |
      ⟨row, hstage, -, rfl⟩ | ⟨hhold, -, rfl⟩ | ⟨hhold, -, rfl⟩ := hcases
    · refine inv_setStage h hcall _ (fun _ id' call' hget hhold hkey => ?_)
        (fun head heq => by cases heq) (fun row heq => by cases heq)
      exact absurd hkey (alone_of_lockFree hfree id' call' hget hhold)
    · refine inv_setStage h hcall _ (fun _ => h.alone hcall (by rw [hstage]; rfl)) ?_
        (fun row heq => by cases heq)
      intro head heq
      cases heq
      rw [h.own _ _ hcall]
    · refine inv_setStage h hcall _ (fun _ => h.alone hcall (by rw [hstage]; rfl))
        (fun head heq => by cases heq) ?_
      intro row heq
      cases heq
      have hhead := h.head _ _ _ hcall hstage
      rw [hhead] at hnext
      have hchain := (h.chain a.id.1).next (h.own _ _ hcall) hnext
      exact ⟨hchain.community _ (by simp), hchain⟩
    · exact inv_commit h hcall hstage
    · exact inv_setStage h hcall _ (fun _ => h.alone hcall hhold) (fun head heq => by cases heq)
        (fun row heq => by cases heq)
    · exact inv_setStage h hcall _ (fun hdone => by cases hdone) (fun head heq => by cases heq)
        (fun row heq => by cases heq)

/-! ## Communities do not depend on one another -/

structure Shows (c : CommunityId) (w v : World) : Prop where
  rows : v.rows = rowsOf w.rows c
  own : ∀ n, v.calls.get? (c, n) = w.calls.get? (c, n)
  others : ∀ id : CallId, id.1 ≠ c → v.calls.get? id = none

theorem shows_init (c : CommunityId) : Shows c World.init World.init :=
  ⟨rfl, fun _ => rfl, fun _ _ => rfl⟩

theorem shows_of_other {c : CommunityId} {w v : World} (h : Shows c w v)
    (hinv : w.Inv sha256 lockKey) (ha : a.communityId ≠ c)
    (hstep : step sha256 lockKey w a = some w') : Shows c w' v := by
  have hid : ∀ n, (c, n) ≠ a.id := fun n heq => ha (congrArg Prod.fst heq).symm
  have hset : ∀ call stage, Shows c (w.setStage a.id call stage) v := by
    intro call stage
    refine ⟨h.rows, fun n => ?_, h.others⟩
    rw [get?_setStage, if_neg (hid n)]
    exact h.own n
  obtain ⟨entry, hnone, -, hcommunity, rfl⟩ | ⟨call, hcall, hcases⟩ := step_cases hstep
  · refine ⟨h.rows, fun n => ?_, h.others⟩
    rw [Table.get?_set, if_neg (hid n)]
    exact h.own n
  · obtain ⟨-, -, rfl⟩ | ⟨-, -, rfl⟩ | ⟨head, now, e, -, -, -, -, rfl⟩ |
      ⟨row, hstage, -, rfl⟩ | ⟨-, -, rfl⟩ | ⟨-, -, rfl⟩ := hcases
    · exact hset _ _
    · exact hset _ _
    · exact hset _ _
    · obtain ⟨hcommunity, -⟩ := hinv.next a.id call row hcall hstage
      refine ⟨?_, (hset call .committed).own, h.others⟩
      rw [rowsOf_append, if_neg (by rw [hcommunity]; exact ha)]
      exact h.rows
    · exact hset _ _
    · exact hset _ _

theorem rowsOf_rowsOf (rows : List Row) (c : CommunityId) :
    rowsOf (rowsOf rows c) c = rowsOf rows c := by
  rw [rowsOf, rowsOf, List.filter_filter]
  simp only [Bool.and_self]

section Shows

variable {c : CommunityId} {w v : World} (h : Shows c w v)

include h

theorem Shows.calls (hget : v.calls.get? id = some call) : w.calls.get? id = some call := by
  by_cases hc : id.1 = c
  · have hid : id = (c, id.2) := Prod.ext hc rfl
    rw [hid] at hget ⊢
    rw [← h.own]
    exact hget
  · rw [h.others id hc] at hget
    cases hget

theorem Shows.lockFree {c' : CommunityId} (hfree : w.lockFree lockKey c' = true) :
    v.lockFree lockKey c' = true := by
  rw [World.lockFree, List.all_eq_true] at hfree ⊢
  intro x hx
  have hget := (Table.mem_toList _ _ _).mp hx
  exact hfree x ((Table.mem_toList _ _ _).mpr (h.calls hget))

theorem Shows.insertable {row : Row} (hinsert : w.insertable row = true) :
    v.insertable row = true := by
  rw [World.insertable, Bool.and_eq_true, List.all_eq_true, List.all_eq_true] at hinsert ⊢
  obtain ⟨hrows, hcalls⟩ := hinsert
  refine ⟨fun row' hrow' => hrows row' ?_, fun x hx => hcalls x ?_⟩
  · rw [h.rows] at hrow'
    exact (List.mem_filter.mp hrow').1
  · have hget := (Table.mem_toList _ _ _).mp hx
    exact (Table.mem_toList _ _ _).mpr (h.calls hget)

theorem Shows.headOf : Audit.headOf v.rows c = Audit.headOf w.rows c := by
  rw [Audit.headOf, Audit.headOf, h.rows, rowsOf_rowsOf]

theorem Shows.setStage (hid : id.1 = c) (call : Call) (stage : Stage) :
    Shows c (w.setStage id call stage) (v.setStage id call stage) := by
  refine ⟨h.rows, fun n => ?_, fun id' hid' => ?_⟩
  · rw [get?_setStage, get?_setStage, h.own n]
  · rw [get?_setStage, if_neg fun heq => hid' (by rw [heq]; exact hid)]
    exact h.others id' hid'

theorem shows_step (hinv : w.Inv sha256 lockKey) (ha : a.communityId = c)
    (hstep : step sha256 lockKey w a = some w') :
    ∃ v', step sha256 lockKey v a = some v' ∧ Shows c w' v' := by
  have hid : a.id.1 = c := ha
  have hown : v.calls.get? a.id = w.calls.get? a.id := by
    have hpair : a.id = (c, a.call) := Prod.ext ha rfl
    rw [hpair]
    exact h.own a.call
  unfold step at hstep ⊢
  rw [hown]
  split at hstep
  · rename_i entry hnone hop
    split_ifs at hstep with hcommunity
    cases hstep
    simp only [if_pos hcommunity]
    refine ⟨_, rfl, h.rows, fun n => ?_, fun id' hid' => ?_⟩
    · rw [Table.get?_set, Table.get?_set, h.own n]
    · rw [Table.get?_set, if_neg fun heq => hid' (by rw [heq]; exact hid)]
      exact h.others id' hid'
  · cases hstep
  · rename_i call hcall
    have hentry := hinv.own _ _ hcall
    dsimp only
    split at hstep
    · rename_i hstage hop
      split_ifs at hstep with hfree
      cases hstep
      simp only [if_pos (h.lockFree hfree)]
      exact ⟨_, rfl, h.setStage hid call _⟩
    · rename_i hstage hop
      cases hstep
      simp only [hentry, hid, h.headOf]
      exact ⟨_, rfl, h.setStage hid call _⟩
    · rename_i head now hstage hop
      split at hstep
      · cases hstep
      · rename_i e hnext
        split_ifs at hstep with hinsert
        cases hstep
        simp only [if_pos (h.insertable hinsert)]
        exact ⟨_, rfl, h.setStage hid call _⟩
    · rename_i row hstage hop
      cases hstep
      obtain ⟨hcommunity, -⟩ := hinv.next a.id call row hcall hstage
      have hset := h.setStage hid call .committed
      refine ⟨_, rfl, ?_, hset.own, hset.others⟩
      rw [rowsOf_append, if_pos (hcommunity.trans hid), ← h.rows]
    · rename_i hstage hop
      cases hstep
      exact ⟨_, rfl, h.setStage hid call _⟩
    · rename_i hstage hop
      cases hstep
      exact ⟨_, rfl, h.setStage hid call _⟩
    · rename_i hstage hop
      cases hstep
      exact ⟨_, rfl, h.setStage hid call _⟩
    · rename_i hstage hop
      cases hstep
      exact ⟨_, rfl, h.setStage hid call _⟩
    · rename_i hstage hop
      cases hstep
      exact ⟨_, rfl, h.setStage hid call _⟩
    · cases hstep

end Shows

open Machine

theorem shows_run {c : CommunityId} {w v : World} {actions : List Action} (h : Shows c w v)
    (hinv : w.Inv sha256 lockKey) (hrun : run (step sha256 lockKey) w actions = some w') :
    ∃ v', run (step sha256 lockKey) v (actions.filter (·.communityId = c)) = some v' ∧
      Shows c w' v' := by
  induction actions generalizing w v with
  | nil =>
    cases hrun
    exact ⟨v, rfl, h⟩
  | cons a actions ih =>
    obtain ⟨t, hstep, hrest⟩ := run_cons_some.mp hrun
    have ht := step_inv hinv hstep
    by_cases ha : a.communityId = c
    · obtain ⟨v', hstep', hshows⟩ := shows_step h hinv ha hstep
      obtain ⟨u, hrun', hend⟩ := ih hshows ht hrest
      rw [List.filter_cons_of_pos (by simpa using ha)]
      exact ⟨u, run_cons_some.mpr ⟨v', hstep', hrun'⟩, hend⟩
    · rw [List.filter_cons_of_neg (by simpa using ha)]
      exact ih (shows_of_other h hinv ha hstep) ht hrest

/-! ## Runs -/

/-- The chain of a community has numbers from 1 on, is linked, and any part of it verifies. -/
structure Integrity (sha256 : List UInt8 → List UInt8) (rows : List Row) (c : CommunityId) :
    Prop where
  seq : ∀ (k : Nat) row, (rowsOf rows c)[k]? = some row → row.seq.toInt = k + 1
  first : ∀ row, (rowsOf rows c)[0]? = some row → row.prevHash = none
  linked : ∀ (k : Nat) row row', (rowsOf rows c)[k]? = some row →
    (rowsOf rows c)[k + 1]? = some row' → row'.prevHash = some row.hash
  verifies : ∀ fromSeq toSeq : Int64,
    (∃ row ∈ rowsOf rows c, between fromSeq toSeq row = true) →
      verifyChain sha256 rows c fromSeq toSeq = .ok true

theorem integrity_of_chain {c : CommunityId} (h : Chain sha256 c (rowsOf rows c)) :
    Integrity sha256 rows c := by
  refine ⟨h.seq, h.first, ?_, fun fromSeq toSeq => h.verifyChain⟩
  intro k row row' hrow hrow'
  obtain ⟨hk, rfl⟩ := List.getElem?_eq_some_iff.mp hrow'
  obtain ⟨hk', rfl⟩ := List.getElem?_eq_some_iff.mp hrow
  exact List.isChain_iff_getElem.mp h.linked k hk

/-- However the calls interleave, each community has a sound chain, and it is the one that its own
calls would have made alone. -/
theorem audit_chains_hold {sha256 : List UInt8 → List UInt8} {lockKey : CommunityId → BitVec 64}
    {actions : List Action} {w : World}
    (hrun : run (step sha256 lockKey) World.init actions = some w) (c : CommunityId) :
    Integrity sha256 w.rows c ∧
      ∃ v, run (step sha256 lockKey) World.init (actions.filter (·.communityId = c)) = some v ∧
        rowsOf v.rows c = rowsOf w.rows c := by
  have hinv : w.Inv sha256 lockKey :=
    run_invariant (World.Inv sha256 lockKey) (fun _ _ _ h hstep => step_inv h hstep) inv_init hrun
  obtain ⟨v, hv, hshows⟩ := shows_run (shows_init c) inv_init hrun
  refine ⟨integrity_of_chain (hinv.chain c), v, hv, ?_⟩
  rw [hshows.rows, rowsOf_rowsOf]

def demoCall (c : CommunityId) (n : Nat) : List Action :=
  [⟨c, n, .call ⟨c, .eventCreated, none, none, ⟨.null, .null, .null⟩⟩⟩, ⟨c, n, .lock⟩,
    ⟨c, n, .readHead⟩]

def demoCommit (c : CommunityId) (n : Nat) : List Action :=
  [⟨c, n, .insert demoTime⟩, ⟨c, n, .commit⟩, ⟨c, n, .unlock⟩]

/-- Two calls of one community with a call of another one between their statements. -/
theorem audit_chains_interleaved : ∃ w, run (step (·.take 32) fun c => c.setWidth 64) World.init
    (demoCall 1 0 ++ demoCall 2 0 ++ demoCommit 1 0 ++ demoCall 1 1 ++ demoCommit 2 0 ++
      demoCommit 1 1) = some w ∧ (rowsOf w.rows 1).length = 2 ∧
        Integrity (·.take 32) w.rows 1 := by
  have hdemo : ((run (step (·.take 32) fun c => c.setWidth 64) World.init
    (demoCall 1 0 ++ demoCall 2 0 ++ demoCommit 1 0 ++ demoCall 1 1 ++ demoCommit 2 0 ++
      demoCommit 1 1)).any fun w => (rowsOf w.rows 1).length == 2) = true := by decide +kernel
  obtain ⟨w, hrun, h⟩ := (Option.any_eq_true _ _).mp hdemo
  exact ⟨w, hrun, eq_of_beq h, (audit_chains_hold hrun 1).1⟩

end Vingilot.Audit
