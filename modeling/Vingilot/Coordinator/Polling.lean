import Vingilot.Coordinator.Evidence
import Vingilot.Lib.Keyset

/-!
# A reader that polls the evidence of a Run

The reader asks for what stands behind the last number it has seen. Appends commit in the order of
their numbers, so nothing is ever written behind its back.
-/

namespace Vingilot.Coordinator.Evidence

open Machine Transactions

/-- `SELECT seq, .. FROM run_evidence WHERE run_id = $1 AND seq > $2 ORDER BY seq`. -/
def listAfter (db : EvidenceDb) (runId : Uuid) (after : Int) : List (Int × EvidenceRow) :=
  ((db.runEvidence.toList.filter fun x => x.1.1 = runId ∧ after < x.1.2).map fun x =>
    (x.1.2, x.2)).insertionSort fun x y => x.1 ≤ y.1

structure Reader where
  runId : Uuid
  after : Int
  received : List (Int × EvidenceRow)

def Reader.new (runId : Uuid) : Reader := ⟨runId, 0, []⟩

def Reader.poll (r : Reader) (db : EvidenceDb) : Reader :=
  let rows := listAfter db r.runId r.after
  { r with
    after := rows.foldl (fun after x => max after x.1) r.after
    received := r.received ++ rows }

structure Polled where
  world : World
  reader : Reader

inductive PollAction where
  | evidence (a : Action)
  | poll
deriving DecidableEq

def pollStep (p : Polled) : PollAction → Option Polled
  | .evidence a => (step p.world a).map fun world => { p with world }
  | .poll => some { p with reader := p.reader.poll p.world.appends.pub.db }

def Polled.init (runs : Table Uuid Run) (runId : Uuid) : Polled := ⟨.init runs, .new runId⟩

/-! ## The log of the Run -/

def withNumbers (rows : List EvidenceRow) : List (Int × EvidenceRow) :=
  rows.mapIdx fun i row => ((i : Int) + 1, row)

theorem mem_withNumbers {rows : List EvidenceRow} {x : Int × EvidenceRow} :
    x ∈ withNumbers rows ↔ ∃ i : Nat, x.1 = i + 1 ∧ rows[i]? = some x.2 := by
  rw [withNumbers, List.mem_mapIdx]
  constructor
  · rintro ⟨i, hi, rfl⟩
    exact ⟨i, rfl, List.getElem?_eq_getElem hi⟩
  · rintro ⟨i, hnumber, hrow⟩
    obtain ⟨hi, hrow⟩ := List.getElem?_eq_some_iff.mp hrow
    exact ⟨i, hi, Prod.ext hnumber.symm hrow⟩

theorem sorted_withNumbers (rows : List EvidenceRow) :
    (withNumbers rows).Pairwise fun x y => x.1 < y.1 := by
  rw [List.pairwise_iff_getElem]
  intro i j hi hj hij
  simp only [withNumbers, List.getElem_mapIdx]
  omega

@[simp]
theorem length_withNumbers (rows : List EvidenceRow) : (withNumbers rows).length = rows.length :=
  List.length_mapIdx

theorem withNumbers_mono {rows rows' : List EvidenceRow} (h : rows <+: rows') :
    withNumbers rows <+: withNumbers rows' := by
  obtain ⟨more, rfl⟩ := h
  rw [withNumbers, withNumbers, List.mapIdx_append]
  exact List.prefix_append _ _

/-! ## One poll -/

theorem mem_listAfter {db : EvidenceDb} {runId : Uuid} {after : Int} {x : Int × EvidenceRow} :
    x ∈ listAfter db runId after ↔
      db.runEvidence.get? (runId, x.1) = some x.2 ∧ after < x.1 := by
  rw [listAfter, List.mem_insertionSort, List.mem_map]
  simp only [List.mem_filter, decide_eq_true_eq]
  constructor
  · rintro ⟨⟨⟨runId', seq⟩, row⟩, ⟨hmem, rfl, hafter⟩, rfl⟩
    exact ⟨(Table.mem_toList ..).mp hmem, hafter⟩
  · rintro ⟨hget, hafter⟩
    exact ⟨((runId, x.1), x.2), ⟨(Table.mem_toList ..).mpr hget, rfl, hafter⟩, rfl⟩

theorem sorted_listAfter (db : EvidenceDb) (runId : Uuid) (after : Int) :
    (listAfter db runId after).Pairwise fun x y => x.1 < y.1 := by
  have hdistinct : (listAfter db runId after).Pairwise fun x y => x.1 ≠ y.1 := by
    refine ((List.perm_insertionSort _ _).pairwise_iff fun h => Ne.symm h).mpr ?_
    rw [List.pairwise_map, List.pairwise_filter]
    refine (Table.nodup_keys db.runEvidence).imp ?_
    intro x y hne hx hy heq
    simp only [decide_eq_true_eq] at hx hy
    exact hne (Prod.ext (hx.1.trans hy.1.symm) heq)
  have hle : (listAfter db runId after).Pairwise fun x y => x.1 ≤ y.1 := by
    have : Std.Total fun x y : Int × EvidenceRow => x.1 ≤ y.1 := ⟨fun _ _ => le_total _ _⟩
    have : IsTrans (Int × EvidenceRow) fun x y => x.1 ≤ y.1 := ⟨fun _ _ _ => le_trans⟩
    exact List.pairwise_insertionSort _ _
  refine (hdistinct.and hle).imp ?_
  intro x y hxy
  exact lt_of_le_of_ne hxy.2 hxy.1

theorem listAfter_eq_drop {db : EvidenceDb} {runId : Uuid} {rows : List EvidenceRow}
    (h : Numbered db.runEvidence runId rows) (k : Nat) :
    listAfter db runId k = (withNumbers rows).drop k := by
  have hsorted := sorted_withNumbers rows
  refine Keyset.eq_of_sorted (sorted_listAfter db runId k) (hsorted.sublist (List.drop_sublist ..))
    fun x => ?_
  rw [mem_listAfter, h, List.mem_iff_getElem?]
  simp only [List.getElem?_drop, withNumbers, List.getElem?_mapIdx]
  constructor
  · rintro ⟨⟨i, hnumber, hrow⟩, hafter⟩
    refine ⟨i - k, ?_⟩
    rw [show k + (i - k) = i by omega, hrow, Option.map_some, ← hnumber]
  · rintro ⟨j, hj⟩
    obtain ⟨row, hrow, rfl⟩ := Option.map_eq_some_iff.mp hj
    exact ⟨⟨k + j, rfl, hrow⟩, by dsimp only; omega⟩

theorem foldl_max_of_sorted {l : List (Int × EvidenceRow)} {after : Int}
    (h : ∀ x ∈ l, after < x.1) (hsorted : l.Pairwise fun x y => x.1 < y.1) :
    l.foldl (fun after x => max after x.1) after = (l.getLast?.map Prod.fst).getD after := by
  induction l generalizing after with
  | nil => rfl
  | cons x l ih =>
    obtain ⟨hx, hl⟩ := List.pairwise_cons.mp hsorted
    rw [List.foldl_cons, max_eq_right (h x List.mem_cons_self).le, ih hx hl]
    cases l with
    | nil => rfl
    | cons y l => simp [List.getLast?_cons]

/-! ## Any interleaving -/

def Polled.rows (p : Polled) : List EvidenceRow :=
  accepted p.world.appends.pub.answers p.reader.runId

def Polled.log (p : Polled) : List (Int × EvidenceRow) := withNumbers p.rows

def Polled.row (p : Polled) (seq : Int) : Option EvidenceRow :=
  p.world.appends.pub.db.runEvidence.get? (p.reader.runId, seq)

structure Reads (p : Polled) : Prop where
  kept : Kept p.world
  received : ∃ k : Nat, k ≤ p.rows.length ∧ p.reader.after = k ∧
    p.reader.received = p.log.take k

variable {p : Polled}

theorem Reads.numbered (h : Reads p) :
    Numbered p.world.appends.pub.db.runEvidence p.reader.runId p.rows := h.kept.log.inv _

theorem reads_init (runs : Table Uuid Run) (runId : Uuid) : Reads (.init runs runId) :=
  ⟨kept_init runs, 0, Nat.zero_le _, rfl, rfl⟩

theorem answers_step {w w' : World} {a : Action} (h : step w a = some w') :
    w.appends.pub.answers <+: w'.appends.pub.answers := by
  have hgrows : ∀ {b appends}, Step evidence w.appends b appends →
      w.appends.pub.answers <+: appends.pub.answers := by
    intro b appends hstep
    cases hstep with
    | advance => exact List.prefix_refl _
    | begin => exact List.prefix_refl _
    | exec => exact List.prefix_refl _
    | commit => exact List.prefix_append _ _
    | refuse => exact List.prefix_append _ _
    | fail => exact List.prefix_append _ _
  cases a with
  | append runId kind content =>
    obtain ⟨appends, hstep, rfl⟩ := lift_some h
    exact hgrows hstep
  | spawn runId kind chunks =>
    cases h
    exact List.prefix_refl _
  | read i =>
    obtain ⟨s, -, h⟩ := Option.bind_eq_some_iff.mp h
    split at h
    · cases h
    · split_ifs at h
      obtain ⟨w'', hlift, h⟩ := Option.bind_eq_some_iff.mp h
      obtain ⟨appends, hbegin, rfl⟩ := lift_some hlift
      cases h
      exact hgrows hbegin
  | exec tx =>
    obtain ⟨appends, hstep, rfl⟩ := lift_some h
    exact hgrows hstep
  | commit tx =>
    obtain ⟨appends, hstep, rfl⟩ := lift_some h
    exact hgrows hstep

theorem accepted_prefix {answers answers' : List (Append × Except EvidenceError (Option Int))}
    (h : answers <+: answers') (runId : Uuid) : accepted answers runId <+: accepted answers' runId :=
  (h.filter _).map _

theorem reads_poll (h : Reads p) : (p.reader.poll p.world.appends.pub.db).after = p.rows.length ∧
      (p.reader.poll p.world.appends.pub.db).received = p.log := by
  obtain ⟨k, hk, hafter, hreceived⟩ := h.received
  have hrows : listAfter p.world.appends.pub.db p.reader.runId p.reader.after = p.log.drop k := by
    rw [hafter]
    exact listAfter_eq_drop h.numbered k
  have hlater : ∀ x ∈ p.log.drop k, p.reader.after < x.1 := by
    rw [← hrows]
    exact fun x hx => (mem_listAfter.mp hx).2
  constructor
  · show (listAfter _ _ _).foldl _ _ = _
    rw [hrows, foldl_max_of_sorted hlater
      ((sorted_withNumbers p.rows).sublist (List.drop_sublist ..)), List.getLast?_drop, hafter]
    have hlength : p.log.length = p.rows.length := length_withNumbers p.rows
    split_ifs with hall
    · simp only [Option.map_none, Option.getD_none]
      omega
    · have hlast : p.log.length - 1 < p.log.length := by omega
      rw [List.getLast?_eq_getElem?, List.getElem?_eq_getElem hlast]
      simp only [Polled.log, withNumbers, List.getElem_mapIdx, Option.map_some, Option.getD_some,
        List.length_mapIdx]
      omega
  · show p.reader.received ++ listAfter _ _ _ = _
    rw [hrows, hreceived, List.take_append_drop]

variable {p' : Polled}

theorem reads_step {a : PollAction} (h : Reads p) (hstep : pollStep p a = some p') :
    Reads p' ∧ p'.reader.runId = p.reader.runId ∧ p.rows <+: p'.rows ∧
      p.reader.received <+: p'.reader.received := by
  cases a with
  | evidence a =>
    obtain ⟨world, hworld, rfl⟩ := Option.map_eq_some_iff.mp hstep
    have hgrows : accepted p.world.appends.pub.answers p.reader.runId <+:
        accepted world.appends.pub.answers p.reader.runId := accepted_prefix (answers_step hworld) _
    obtain ⟨k, hk, hafter, hreceived⟩ := h.received
    refine ⟨⟨(kept_step h.kept hworld).1, k, hk.trans hgrows.length_le, hafter, ?_⟩, rfl, hgrows,
      List.prefix_refl _⟩
    obtain ⟨more, hmore⟩ := withNumbers_mono hgrows
    have hshort : k ≤ (withNumbers (accepted p.world.appends.pub.answers p.reader.runId)).length :=
      hk.trans (length_withNumbers _).ge
    show p.reader.received = (withNumbers (accepted world.appends.pub.answers _)).take k
    rw [← hmore, List.take_append_of_le_length hshort]
    exact hreceived
  | poll =>
    cases hstep
    obtain ⟨hafter, hreceived⟩ := reads_poll h
    refine ⟨⟨h.kept, _, Nat.le_refl _, hafter, ?_⟩, rfl, List.prefix_refl _, List.prefix_append _ _⟩
    rw [hreceived]
    exact (List.take_of_length_le (length_withNumbers _).le).symm

variable {actions : List PollAction}

theorem reads_run (h : Reads p) (hrun : run pollStep p actions = some p') :
    Reads p' ∧ p'.reader.runId = p.reader.runId ∧ p.rows <+: p'.rows ∧
      p.reader.received <+: p'.reader.received := by
  induction actions generalizing p with
  | nil =>
    cases hrun
    exact ⟨h, rfl, List.prefix_refl _, List.prefix_refl _⟩
  | cons a actions ih =>
    obtain ⟨q, hstep, hrest⟩ := run_cons_some.mp hrun
    obtain ⟨hq, hrunId, hrows, hreceived⟩ := reads_step h hstep
    obtain ⟨hp', hrunId', hrows', hreceived'⟩ := ih hq hrest
    exact ⟨hp', hrunId'.trans hrunId, hrows.trans hrows', hreceived.trans hreceived'⟩

theorem log_received (h : Reads p) (hrun : run pollStep p actions = some p')
    (hpoll : .poll ∈ actions) : p.log <+: p'.reader.received := by
  induction actions generalizing p with
  | nil => cases hpoll
  | cons a actions ih =>
    obtain ⟨q, hstep, hrest⟩ := run_cons_some.mp hrun
    obtain ⟨hq, -, hrows, -⟩ := reads_step h hstep
    by_cases hlater : .poll ∈ actions
    · exact (withNumbers_mono hrows).trans (ih hq hrest hlater)
    · obtain rfl : a = .poll := by simpa [hlater, eq_comm] using hpoll
      cases hstep
      exact (reads_poll h).2 ▸ (reads_run hq hrest).2.2.2

theorem after_lt_of_new (h : Reads p) (hrun : run pollStep p actions = some p') {seq : Int}
    (hnone : p.row seq = none) (hsome : p'.row seq ≠ none) : p.reader.after < seq := by
  obtain ⟨hp', hrunId, -, -⟩ := reads_run h hrun
  obtain ⟨k, hk, hafter, -⟩ := h.received
  obtain ⟨row, hrow⟩ := Option.ne_none_iff_exists'.mp hsome
  obtain ⟨i, rfl, -⟩ := (hp'.numbered seq row).mp hrow
  rw [hafter]
  by_contra hle
  have hi : i < p.rows.length := by omega
  have hthere := (h.numbered ((i : Int) + 1) p.rows[i]).mpr ⟨i, rfl, List.getElem?_eq_getElem hi⟩
  rw [Polled.row, hthere] at hnone
  cases hnone

/-- At any time the reader has an initial part of the log, in which each number stands once and in
order. After another poll it has all that was there before, and what is committed later stands
behind the last number that it has seen. -/
theorem polling_misses_nothing {runs : Table Uuid Run} {runId : Uuid}
    {before later : List PollAction} {p p' : Polled}
    (hbefore : run pollStep (.init runs runId) before = some p)
    (hlater : run pollStep p later = some p') :
    (p.log.map Prod.snd = p.rows ∧ ∀ x, x ∈ p.log ↔ p.row x.1 = some x.2) ∧
      (p.log.Pairwise fun x y => x.1 < y.1) ∧ p.reader.received <+: p.log ∧
      (.poll ∈ later → p.log <+: p'.reader.received) ∧
      ∀ seq, p.row seq = none → p'.row seq ≠ none → p.reader.after < seq := by
  have h : Reads p := (reads_run (reads_init runs runId) hbefore).1
  refine ⟨⟨?_, fun x => mem_withNumbers.trans (h.numbered x.1 x.2).symm⟩, sorted_withNumbers p.rows,
    ?_, log_received h hlater, fun seq => after_lt_of_new h hlater⟩
  · refine List.ext_getElem (by simp [Polled.log]) fun i hi hi' => ?_
    simp [Polled.log, withNumbers]
  · obtain ⟨k, -, -, hreceived⟩ := h.received
    rw [hreceived]
    exact List.take_prefix k p.log

def overlapping : List PollAction :=
  [.poll, .evidence (.append 1 .output "compiling"), .evidence (.append 1 .error "warning"),
    .evidence (.exec 0), .evidence (.exec 0), .evidence (.exec 1), .evidence (.exec 0),
    .evidence (.commit 0), .poll, .evidence (.exec 1), .evidence (.exec 1)]

theorem polling_misses_nothing_overlapping : ∃ p p', run pollStep (.init oneRun 1) overlapping =
    some p ∧ run pollStep p [.evidence (.commit 1), .poll] = some p' ∧ p.rows.length = 1 ∧
      p.reader.after = 1 ∧ p'.row 2 ≠ none ∧ p.log <+: p'.reader.received ∧ p.reader.after < 2 := by
  have hdemo : ((run pollStep (.init oneRun 1) overlapping).any fun p =>
      p.rows.length == 1 && p.reader.after == 1 && (p.row 2).isNone &&
        (run pollStep p [.evidence (.commit 1), .poll]).any fun p' => (p'.row 2).isSome) = true := by
    decide +kernel
  obtain ⟨p, hbefore, h⟩ := (Option.any_eq_true _ _).mp hdemo
  simp only [Bool.and_eq_true, beq_iff_eq, Option.isNone_iff_eq_none] at h
  obtain ⟨⟨⟨hrows, hafter⟩, hnone⟩, h⟩ := h
  obtain ⟨p', hlater, hsome⟩ := (Option.any_eq_true _ _).mp h
  have hthere : p'.row 2 ≠ none := Option.isSome_iff_ne_none.mp hsome
  obtain ⟨-, -, -, hpoll, hnew⟩ := polling_misses_nothing hbefore hlater
  exact ⟨p, p', hbefore, hlater, hrows, hafter, hthere, hpoll (by decide), hnew 2 hnone hthere⟩

end Vingilot.Coordinator.Evidence
