import Vingilot.Lib.Transactions
import Vingilot.Coordinator.Store

/-!
# Evidence of a Run (`coordinator/src/evidence.rs`, `executor/src/lib.rs`)

An append reads the greatest number of the Run's rows and inserts a row at the next one. The read
takes no lock, so two appends may read the same number. The primary key then refuses the second.
The type of the column refuses a text with a zero character.
-/

namespace Vingilot.Coordinator.Evidence

open Machine Transactions

inductive EvidenceKind where
  | command
  | output
  | error
  | note
  | diff
  | commit
deriving DecidableEq

def maxContentBytes : Nat := 64 * 1024

inductive EvidenceError where
  | runNotFound (runId : Uuid)
  | contentTooLarge (actual max : Nat)
  | db

structure EvidenceRow where
  kind : EvidenceKind
  content : String

structure EvidenceDb where
  runs : Table Uuid Run
  runEvidence : Table (Uuid × Int) EvidenceRow

/-- A call of `append`. The stream it belongs to is kept for the statements only. -/
structure Append where
  runId : Uuid
  kind : EvidenceKind
  content : String
  source : Option Nat

def Append.row (c : Append) : EvidenceRow := ⟨c.kind, c.content⟩

/-! ## The statements of `append` -/

abbrev Insert := (Uuid × Int) × EvidenceRow

/-- The locals of `append`, which are `next_seq`. -/
abbrev AppendStatement := Statement EvidenceDb (Uuid × Int) (Option Int) Insert EvidenceError

def refuseContent (c : Append) : AppendStatement where
  locks _ _ := []
  exec _ _ := .error (.contentTooLarge c.content.utf8ByteSize maxContentBytes)

/-- `SELECT id FROM runs WHERE id = $1`. -/
def selectRun (c : Append) : AppendStatement where
  locks _ _ := []
  exec vars db := if (db.runs.get? c.runId).isSome then .ok (vars, []) else .error (.runNotFound c.runId)

/-- `SELECT COALESCE(MAX(seq), 0) + 1 FROM run_evidence WHERE run_id = $1`. -/
def selectMax (c : Append) : AppendStatement where
  locks _ _ := []
  exec _ db := .ok (some (nextSeq db.runEvidence c.runId), [])

/-- What a `TEXT` column takes: Postgres refuses the character zero. -/
def isPgText (s : String) : Bool := s.toList.all fun c => c.toNat ≠ 0

/-- `INSERT INTO run_evidence`. The text is refused when it is bound, before the statement waits for
another transaction that inserts the same key. -/
def insert (c : Append) : AppendStatement where
  locks vars _ :=
    if isPgText c.content then vars.toList.map fun seq => ((c.runId, seq), .exclusive) else []
  exec vars db :=
    match vars with
    | none => .error .db
    | some seq =>
      if !isPgText c.content || (db.runEvidence.get? (c.runId, seq)).isSome then .error .db
      else .ok (some seq, [((c.runId, seq), c.row)])

def append (c : Append) : List AppendStatement :=
  if maxContentBytes < c.content.utf8ByteSize then [refuseContent c]
  else [selectRun c, selectMax c, insert c]

def evidence : System Append EvidenceDb (Uuid × Int) (Option Int) Insert EvidenceError where
  apply db w := { db with runEvidence := db.runEvidence.set w.1 w.2 }
  vars := none
  program c _ := append c

/-! ## Streams -/

/-- A read of at most `EVIDENCE_CHUNK_BYTES` as text. A replacement character has three bytes. -/
structure Chunk where
  text : String
  size_le : text.utf8ByteSize ≤ 3 * (8 * 1024)
deriving DecidableEq

/-- `stream_to_evidence`. A chunk is appended when the append before it has been answered, whatever
the answer was. -/
structure Streamer where
  runId : Uuid
  kind : EvidenceKind
  unread : List Chunk
  read : List Chunk
  current : Option Nat

def stream (runId : Uuid) (kind : EvidenceKind) (chunks : List Chunk) : Streamer :=
  ⟨runId, kind, chunks, [], none⟩

abbrev Appends := Transactions.World Append EvidenceDb (Uuid × Int) (Option Int) Insert EvidenceError

structure World where
  appends : Appends
  streams : Table Nat Streamer
  spawned : Nat

def pending (w : World) (s : Streamer) :
    Option (Tx Append EvidenceDb (Uuid × Int) (Option Int) Insert EvidenceError) :=
  s.current.bind w.appends.txs.get?

inductive Action where
  | append (runId : Uuid) (kind : EvidenceKind) (content : String)
  | spawn (runId : Uuid) (kind : EvidenceKind) (chunks : List Chunk)
  | read (i : Nat)
  | exec (tx : Nat)
  | commit (tx : Nat)
deriving DecidableEq

def World.lift (w : World) (a : Transactions.Action Append EvidenceError) : Option World :=
  (Transactions.step evidence w.appends a).map fun appends => { w with appends }

def step (w : World) : Action → Option World
  | .append runId kind content => w.lift (.begin ⟨runId, kind, content, none⟩)
  | .spawn runId kind chunks =>
    some { w with
      streams := w.streams.set w.spawned (stream runId kind chunks)
      spawned := w.spawned + 1 }
  | .read i => do
    let s ← w.streams.get? i
    match s.unread with
    | [] => none
    | chunk :: unread =>
      if (pending w s).isNone then
        let s' := { s with unread, read := s.read ++ [chunk], current := some w.appends.started }
        let w' ← w.lift (.begin ⟨s.runId, s.kind, chunk.text, some i⟩)
        some { w' with streams := w.streams.set i s' }
      else none
  | .exec tx => w.lift (.exec tx)
  | .commit tx => w.lift (.commit tx)

def World.init (runs : Table Uuid Run) : World := ⟨Transactions.World.init 0 ⟨runs, ∅⟩, ∅, 0⟩

/-! ## What is to be shown -/

def accepted (answers : List (Append × Except EvidenceError (Option Int))) (runId : Uuid) :
    List EvidenceRow :=
  (answers.filter fun x => x.2.isOk && x.1.runId = runId).map fun x => x.1.row

def answered (answers : List (Append × Except EvidenceError (Option Int))) (i : Nat) :
    List (Append × Except EvidenceError (Option Int)) :=
  answers.filter fun x => x.1.source = some i

def Succeeds (runs : Table Uuid Run) (x : Append × Except EvidenceError (Option Int)) : Prop :=
  x.2.isOk = true ∨ runs.get? x.1.runId = none ∨ maxContentBytes < x.1.content.utf8ByteSize

/-- Every append succeeds, its row stands in the log, which has no gap, and no stream has lost a
chunk. -/
structure Complete (w : World) : Prop where
  succeeds : ∀ x ∈ w.appends.pub.answers, Succeeds w.appends.pub.db.runs x
  numbered : ∀ runId,
    Numbered w.appends.pub.db.runEvidence runId (accepted w.appends.pub.answers runId)
  streamed : ∀ i s, w.streams.get? i = some s → (w.appends.pub.db.runs.get? s.runId).isSome →
    pending w s = none → (∀ x ∈ answered w.appends.pub.answers i, x.2.isOk = true) ∧
      (answered w.appends.pub.answers i).map (·.1.row) = s.read.map fun c => ⟨s.kind, c.text⟩

/-- No other append to the Run has been committed between the read of the next number and the
insert, and the column takes the text. -/
def InTurn (w : World) : Action → Prop
  | .exec tx => ∀ t ∈ w.appends.txs.get? tx, t.rest ≠ [] → ∀ seq ∈ t.vars,
      isPgText t.call.content = true ∧ seq = nextSeq w.appends.pub.db.runEvidence t.call.runId
  | _ => True

/-! ## The log of a Run -/

theorem apply_runs (db : EvidenceDb) (ws : List Insert) : (view evidence db ws).runs = db.runs := by
  induction ws generalizing db with
  | nil => rfl
  | cons w ws ih => exact ih _

variable {db : EvidenceDb}

theorem isSome_iff_lt {runId : Uuid} {rows : List EvidenceRow}
    (h : Numbered db.runEvidence runId rows) {seq : Int} (hpos : 1 ≤ seq) :
    (db.runEvidence.get? (runId, seq)).isSome = true ↔ seq < nextSeq db.runEvidence runId := by
  rw [h.nextSeq_eq]
  constructor
  · intro hsome
    by_contra hlt
    rw [h.get?_eq_none (.inr (by omega))] at hsome
    cases hsome
  · intro hlt
    have hrow := (h seq rows[(seq - 1).toNat]).mpr
      ⟨(seq - 1).toNat, by omega, List.getElem?_eq_getElem (by omega)⟩
    rw [hrow]
    rfl

inductive Stage (db : EvidenceDb)
    (t : Tx Append EvidenceDb (Uuid × Int) (Option Int) Insert EvidenceError) : Prop where
  | tooLarge (hrest : t.rest = [refuseContent t.call]) (hvars : t.vars = none)
      (hsize : maxContentBytes < t.call.content.utf8ByteSize)
  | started (hrest : t.rest = [selectRun t.call, selectMax t.call, insert t.call])
      (hvars : t.vars = none) (hwrites : t.writes = [])
      (hsize : t.call.content.utf8ByteSize ≤ maxContentBytes)
  | checked (hrest : t.rest = [selectMax t.call, insert t.call]) (hvars : t.vars = none)
      (hwrites : t.writes = []) (hsize : t.call.content.utf8ByteSize ≤ maxContentBytes)
      (hrun : (db.runs.get? t.call.runId).isSome)
  | counted (seq : Int) (hrest : t.rest = [insert t.call]) (hvars : t.vars = some seq)
      (hwrites : t.writes = []) (hsize : t.call.content.utf8ByteSize ≤ maxContentBytes)
      (hrun : (db.runs.get? t.call.runId).isSome) (hpos : 1 ≤ seq)
      (hle : seq ≤ nextSeq db.runEvidence t.call.runId)
  | inserted (hrest : t.rest = [])
      (hrun : (db.runs.get? t.call.runId).isSome)
      (hvars : t.vars = some (nextSeq db.runEvidence t.call.runId))
      (hwrites : t.writes =
        [((t.call.runId, nextSeq db.runEvidence t.call.runId), t.call.row)])
      (hheld : ((t.call.runId, nextSeq db.runEvidence t.call.runId), Mode.exclusive) ∈ t.held)

def Logged (p : Public Append EvidenceDb (Option Int) EvidenceError) : Prop :=
  ∀ runId, Numbered p.db.runEvidence runId (accepted p.answers runId)

theorem accepted_refused (answers : List (Append × Except EvidenceError (Option Int))) (c : Append)
    (e : EvidenceError) (runId : Uuid) :
    accepted (answers ++ [(c, Except.error e)]) runId = accepted answers runId := by
  simp [accepted, List.filter_append, Except.isOk, Except.toBool]

theorem accepted_committed (answers : List (Append × Except EvidenceError (Option Int)))
    (c : Append) (vars : Option Int) (runId : Uuid) :
    accepted (answers ++ [(c, Except.ok vars)]) runId =
      accepted answers runId ++ if c.runId = runId then [c.row] else [] := by
  unfold accepted
  rw [List.filter_append, List.map_append]
  congr 1
  by_cases hrun : c.runId = runId
  · simp [hrun, Except.isOk, Except.toBool]
  · simp [hrun, Except.isOk, Except.toBool]

variable {t : Tx Append EvidenceDb (Uuid × Int) (Option Int) Insert EvidenceError}

theorem Stage.of_congr {db' : EvidenceDb} (h : Stage db t) (hruns : db'.runs = db.runs)
    (hnext : nextSeq db'.runEvidence t.call.runId = nextSeq db.runEvidence t.call.runId) :
    Stage db' t := by
  cases h with
  | tooLarge hrest hvars hsize => exact .tooLarge hrest hvars hsize
  | started hrest hvars hwrites hsize => exact .started hrest hvars hwrites hsize
  | checked hrest hvars hwrites hsize hrun =>
    exact .checked hrest hvars hwrites hsize (by rw [hruns]; exact hrun)
  | counted seq hrest hvars hwrites hsize hrun hpos hle =>
    exact .counted seq hrest hvars hwrites hsize (by rw [hruns]; exact hrun) hpos (by rw [hnext]; exact hle)
  | inserted hrest hrun hvars hwrites hheld =>
    exact .inserted hrest (by rw [hruns]; exact hrun) (by rw [hnext]; exact hvars)
      (by rw [hnext]; exact hwrites) (by rw [hnext]; exact hheld)

theorem Stage.committed (h : Stage db t) (hrest : t.rest = []) :
    view evidence db t.writes = { db with
      runEvidence := db.runEvidence.set (t.call.runId, nextSeq db.runEvidence t.call.runId)
        t.call.row } := by
  cases h with
  | inserted _ _ _ hwrites => rw [hwrites]; rfl
  | tooLarge hrest' => rw [hrest'] at hrest; cases hrest
  | started hrest' => rw [hrest'] at hrest; cases hrest
  | checked hrest' => rw [hrest'] at hrest; cases hrest
  | counted _ hrest' => rw [hrest'] at hrest; cases hrest

theorem not_refused {content : String} {taken : Bool} (h : ¬ (!isPgText content || taken) = true) :
    isPgText content = true ∧ ¬ taken = true := by
  rwa [Bool.or_eq_true, not_or, Bool.not_eq_true', Bool.not_eq_false] at h

variable {stmt : AppendStatement} {rest : List AppendStatement}

theorem Stage.next (hlog : ∀ runId, ∃ rows, Numbered db.runEvidence runId rows) (h : Stage db t)
    {vars : Option Int} {writes : List Insert} (hrest : t.rest = stmt :: rest)
    (hexec : stmt.exec t.vars (view evidence db t.writes) = .ok (vars, writes)) :
    Stage db (t.after rest (stmt.locks t.vars (view evidence db t.writes)) vars writes) := by
  obtain ⟨rows, hrows⟩ := hlog t.call.runId
  cases h with
  | tooLarge hrest' =>
    rw [hrest'] at hrest
    cases hrest
    cases hexec
  | started hrest' hvars hwrites hsize =>
    rw [hrest'] at hrest
    cases hrest
    rw [hwrites] at hexec
    unfold selectRun at hexec
    simp only at hexec
    split_ifs at hexec with hrun
    cases hexec
    exact .checked rfl hvars (by simp [Tx.after, hwrites]) hsize hrun
  | checked hrest' hvars hwrites hsize hrun =>
    rw [hrest'] at hrest
    cases hrest
    rw [hwrites] at hexec
    cases hexec
    refine .counted _ rfl rfl (by simp [Tx.after, hwrites]) hsize hrun ?_ (Int.le_refl _)
    show 1 ≤ nextSeq db.runEvidence t.call.runId
    rw [hrows.nextSeq_eq]
    omega
  | counted seq hrest' hvars hwrites hsize hrun hpos hle =>
    rw [hrest'] at hrest
    cases hrest
    rw [hwrites, hvars] at hexec
    unfold insert at hexec
    simp only at hexec
    split_ifs at hexec with hrefused
    cases hexec
    obtain ⟨htext, hrow⟩ := not_refused hrefused
    have hfree : ¬ seq < nextSeq db.runEvidence t.call.runId :=
      fun hlt => hrow ((isSome_iff_lt hrows hpos).mpr hlt)
    obtain rfl : seq = nextSeq db.runEvidence t.call.runId := by omega
    refine .inserted rfl hrun rfl (by simp [Tx.after, hwrites]) ?_
    simp [Tx.after, insert, hvars, htext]
  | inserted hrest' => rw [hrest'] at hrest; cases hrest

theorem Stage.beside (hlog : ∀ runId, ∃ rows, Numbered db.runEvidence runId rows)
    {u : Tx Append EvidenceDb (Uuid × Int) (Option Int) Insert EvidenceError} (ht : Stage db t)
    (hu : Stage db u) (hrest : t.rest = []) (hlocks : conflict t.held u.held = false) :
    Stage (view evidence db t.writes) u := by
  rw [ht.committed hrest]
  obtain ⟨rows, hrows⟩ := hlog u.call.runId
  by_cases hrun : u.call.runId = t.call.runId
  · have hnext : nextSeq (db.runEvidence.set (t.call.runId, nextSeq db.runEvidence t.call.runId)
        t.call.row) u.call.runId = nextSeq db.runEvidence u.call.runId + 1 := by
      rw [← hrun, (hrows.append t.call.row).nextSeq_eq, hrows.nextSeq_eq]
      simp
    cases hu with
    | tooLarge hrest' hvars hsize => exact .tooLarge hrest' hvars hsize
    | started hrest' hvars hwrites hsize => exact .started hrest' hvars hwrites hsize
    | checked hrest' hvars hwrites hsize hrun' => exact .checked hrest' hvars hwrites hsize hrun'
    | counted seq hrest' hvars hwrites hsize hrun' hpos hle =>
      refine .counted seq hrest' hvars hwrites hsize hrun' hpos ?_
      rw [hnext]
      omega
    | inserted hrest' hrun' hvars hwrites hheld =>
      cases ht with
      | inserted _ _ _ _ hheld' =>
        rw [hrun] at hheld
        rw [conflict_of_mem hheld' hheld] at hlocks
        cases hlocks
      | tooLarge hrest'' => rw [hrest''] at hrest; cases hrest
      | started hrest'' => rw [hrest''] at hrest; cases hrest
      | checked hrest'' => rw [hrest''] at hrest; cases hrest
      | counted _ hrest'' => rw [hrest''] at hrest; cases hrest
  · refine hu.of_congr rfl ?_
    rw [(hrows.set_other hrun _ _).nextSeq_eq, hrows.nextSeq_eq]

theorem evidence_rule : Rule evidence .any Logged fun p t => Stage p.db t where
  advance _ _ h := h
  refuse p c e h := by
    intro runId
    show Numbered p.db.runEvidence runId (accepted (p.answers ++ [(c, Except.error e)]) runId)
    rw [accepted_refused]
    exact h runId
  commit p t h ht hrest _ := by
    intro runId
    show Numbered (view evidence p.db t.writes).runEvidence runId
      (accepted (p.answers ++ [(t.call, Except.ok t.vars)]) runId)
    rw [ht.committed hrest, accepted_committed]
    split_ifs with hrun
    · subst hrun
      exact (h t.call.runId).append t.call.row
    · rw [List.append_nil]
      exact (h runId).set_other (fun hsame => hrun hsame.symm) _ _
  begin p c h := by
    by_cases hsize : maxContentBytes < c.content.utf8ByteSize
    · exact .tooLarge (if_pos hsize) rfl hsize
    · exact .started (if_neg hsize) rfl rfl (Nat.le_of_not_lt hsize)
  exec p t stmt rest vars writes h ht hrest _ hexec :=
    ht.next (fun runId => ⟨_, h runId⟩) hrest hexec
  ownAdvance _ _ _ h := h
  ownRefuse _ _ _ _ h := h
  ownCommit p t u h ht hu hrest hlocks _ :=
    ht.beside (fun runId => ⟨_, h runId⟩) hu hrest hlocks

/-! ## The streams -/

def Streamer.row (s : Streamer) (c : Chunk) : EvidenceRow := ⟨s.kind, c.text⟩

structure Sent (w : World) (i : Nat) (s : Streamer) : Prop where
  answers : ∀ x ∈ answered w.appends.pub.answers i,
    x.1.runId = s.runId ∧ x.1.content.utf8ByteSize ≤ maxContentBytes
  idle : pending w s = none →
    (answered w.appends.pub.answers i).map (·.1.row) = s.read.map s.row
  busy : ∀ t, pending w s = some t → t.call.source = some i ∧ t.call.runId = s.runId ∧
    t.call.content.utf8ByteSize ≤ maxContentBytes ∧
    (answered w.appends.pub.answers i).map (·.1.row) ++ [t.call.row] = s.read.map s.row

structure Streams (w : World) : Prop where
  opened : ∀ tx t, w.appends.txs.get? tx = some t → tx < w.appends.started
  current : ∀ i s, w.streams.get? i = some s → ∀ tx ∈ s.current, tx < w.appends.started
  source : ∀ tx t, w.appends.txs.get? tx = some t → ∀ i ∈ t.call.source,
    ∃ s, w.streams.get? i = some s ∧ s.current = some tx
  spawned : ∀ i s, w.streams.get? i = some s → i < w.spawned
  answers : ∀ x ∈ w.appends.pub.answers, ∀ i ∈ x.1.source, i < w.spawned
  sent : ∀ i s, w.streams.get? i = some s → Sent w i s

theorem streams_init (runs : Table Uuid Run) : Streams (.init runs) where
  opened := fun _ _ h => (by cases h)
  current := fun _ _ h => (by cases h)
  source := fun _ _ h => (by cases h)
  spawned := fun _ _ h => (by cases h)
  answers := fun _ h => (by cases h)
  sent := fun _ _ h => (by cases h)

variable {w : World}

theorem Streams.goes (h : Streams w) {tx : Nat}
    {t' : Tx Append EvidenceDb (Uuid × Int) (Option Int) Insert EvidenceError}
    (hopen : w.appends.txs.get? tx = some t) (hcall : t'.call = t.call) :
    Streams { w with appends := { w.appends with txs := w.appends.txs.set tx t' } } := by
  have hget : ∀ tx' u', (w.appends.txs.set tx t').get? tx' = some u' →
      ∃ u, w.appends.txs.get? tx' = some u ∧ u'.call = u.call := by
    intro tx' u' hu'
    rw [Table.get?_set] at hu'
    split_ifs at hu' with hsame
    · cases hu'
      subst hsame
      exact ⟨t, hopen, hcall⟩
    · exact ⟨u', hu', rfl⟩
  refine ⟨fun tx' u' hu' => ?_, h.current, fun tx' u' hu' i hi => ?_, h.spawned, h.answers,
    fun i s hs => ⟨(h.sent i s hs).answers, fun hidle => ?_, fun u' hu' => ?_⟩⟩
  · obtain ⟨u, hu, -⟩ := hget tx' u' hu'
    exact h.opened tx' u hu
  · obtain ⟨u, hu, hsame⟩ := hget tx' u' hu'
    exact h.source tx' u hu i (by rw [← hsame]; exact hi)
  · refine (h.sent i s hs).idle ?_
    unfold pending at hidle ⊢
    cases hcurrent : s.current with
    | none => rfl
    | some tx' =>
      rw [hcurrent, Option.bind_some, Table.get?_set] at hidle
      split_ifs at hidle
      exact hidle
  · obtain ⟨tx', hcurrent, hu'⟩ := Option.bind_eq_some_iff.mp hu'
    obtain ⟨u, hu, hsame⟩ := hget tx' u' hu'
    unfold Append.row
    rw [hsame]
    exact (h.sent i s hs).busy u (Option.bind_eq_some_iff.mpr ⟨tx', hcurrent, hu⟩)

theorem answered_append (answers : List (Append × Except EvidenceError (Option Int))) (c : Append)
    (r : Except EvidenceError (Option Int)) (i : Nat) :
    answered (answers ++ [(c, r)]) i =
      answered answers i ++ if c.source = some i then [(c, r)] else [] := by
  unfold answered
  rw [List.filter_append]
  congr 1
  by_cases hsource : c.source = some i
  · simp [hsource]
  · simp [hsource]

theorem Streams.ends (h : Streams w) {tx : Nat} (hopen : w.appends.txs.get? tx = some t)
    (r : Except EvidenceError (Option Int)) (clock : Int) (db : EvidenceDb) :
    Streams { w with appends := { w.appends with
      pub := ⟨clock, db, w.appends.pub.answers ++ [(t.call, r)]⟩, txs := w.appends.txs.remove tx } } := by
  have hget : ∀ tx' u, (w.appends.txs.remove tx).get? tx' = some u →
      tx' ≠ tx ∧ w.appends.txs.get? tx' = some u := by
    intro tx' u hu
    rw [Table.get?_remove] at hu
    split_ifs at hu with hsame
    exact ⟨hsame, hu⟩
  refine ⟨fun tx' u hu => h.opened tx' u (hget tx' u hu).2, h.current,
    fun tx' u hu => h.source tx' u (hget tx' u hu).2, h.spawned, fun x hx i hi => ?_, fun i s hs => ?_⟩
  · rcases List.mem_append.mp hx with hx | hx
    · exact h.answers x hx i hi
    · obtain rfl := List.mem_singleton.mp hx
      obtain ⟨s, hs, -⟩ := h.source tx t hopen i hi
      exact h.spawned i s hs
  · have hsent := h.sent i s hs
    by_cases hcurrent : s.current = some tx
    · have hpending : pending w s = some t := by rw [pending, hcurrent]; exact hopen
      obtain ⟨hsource, hrun, hsize, hrows⟩ := hsent.busy t hpending
      refine ⟨fun x hx => ?_, fun _ => ?_, fun u hu => ?_⟩
      · rw [answered_append, if_pos hsource] at hx
        rcases List.mem_append.mp hx with hx | hx
        · exact hsent.answers x hx
        · obtain rfl := List.mem_singleton.mp hx
          exact ⟨hrun, hsize⟩
      · rw [answered_append, if_pos hsource, List.map_append]
        exact hrows
      · obtain ⟨tx', hcurrent', hu⟩ := Option.bind_eq_some_iff.mp hu
        rw [hcurrent] at hcurrent'
        cases hcurrent'
        exact absurd rfl (hget tx u hu).1
    · have hsource : t.call.source ≠ some i := by
        intro hsource
        obtain ⟨s', hs', hcurrent'⟩ := h.source tx t hopen i hsource
        rw [hs] at hs'
        cases hs'
        exact hcurrent hcurrent'
      have hpending : s.current.bind (w.appends.txs.remove tx).get? = pending w s := by
        unfold pending
        cases hcurrent' : s.current with
        | none => rfl
        | some tx' =>
          rw [Option.bind_some, Option.bind_some, Table.get?_remove, if_neg]
          rintro rfl
          exact hcurrent hcurrent'
      refine ⟨?_, fun hidle => ?_, fun u hu => ?_⟩
      · rw [answered_append, if_neg hsource, List.append_nil]
        exact hsent.answers
      · rw [answered_append, if_neg hsource, List.append_nil]
        exact hsent.idle (hpending ▸ hidle)
      · rw [answered_append, if_neg hsource, List.append_nil]
        exact hsent.busy u (hpending ▸ hu)

/-- The world after `begin`. -/
def begun (w : World) (c : Append) : World :=
  { w with appends := { w.appends with
      txs := w.appends.txs.set w.appends.started (fresh evidence c w.appends.pub.clock)
      started := w.appends.started + 1 } }

variable {s : Streamer}

theorem pending_begun (hcurrent : ∀ tx ∈ s.current, tx < w.appends.started) (c : Append) :
    pending (begun w c) s = pending w s := by
  unfold pending begun
  cases hcurrent' : s.current with
  | none => rfl
  | some tx =>
    have hlt := hcurrent tx hcurrent'
    rw [Option.bind_some, Option.bind_some, Table.get?_set, if_neg (by omega)]

theorem Sent.begun {i : Nat} (h : Sent w i s) (hcurrent : ∀ tx ∈ s.current, tx < w.appends.started)
    (c : Append) : Sent (begun w c) i s where
  answers := h.answers
  idle hidle := h.idle (by rwa [pending_begun hcurrent] at hidle)
  busy t ht := h.busy t (by rwa [pending_begun hcurrent] at ht)

theorem Streams.append (h : Streams w) {c : Append} (hsource : c.source = none) :
    Streams (begun w c) := by
  refine ⟨fun tx t ht => ?_, fun i s hs tx htx => ?_, fun tx t ht i hi => ?_, h.spawned, h.answers,
    fun i s hs => (h.sent i s hs).begun (h.current i s hs) c⟩
  · simp only [begun, Table.get?_set] at ht ⊢
    split_ifs at ht with hnew
    · omega
    · have hold := h.opened tx t ht
      omega
  · have hold := h.current i s hs tx htx
    simp only [begun]
    omega
  · simp only [begun, Table.get?_set] at ht
    split_ifs at ht with hnew
    · cases ht
      exact absurd (hsource.symm.trans hi) (by simp)
    · exact h.source tx t ht i hi

theorem Streams.read (h : Streams w) {i : Nat} {chunk : Chunk} {unread : List Chunk}
    (hs : w.streams.get? i = some s) (hidle : pending w s = none) :
    Streams { begun w ⟨s.runId, s.kind, chunk.text, some i⟩ with
      streams := w.streams.set i { s with
        unread, read := s.read ++ [chunk], current := some w.appends.started } } := by
  have hsmall : chunk.text.utf8ByteSize ≤ maxContentBytes :=
    Nat.le_trans chunk.size_le (by decide)
  have hother : ∀ j s', (w.streams.set i { s with
      unread, read := s.read ++ [chunk], current := some w.appends.started }).get? j = some s' →
      (j = i ∧ s' = { s with unread, read := s.read ++ [chunk], current := some w.appends.started }) ∨
        (j ≠ i ∧ w.streams.get? j = some s') := by
    intro j s' hs'
    rw [Table.get?_set] at hs'
    split_ifs at hs' with hj
    · cases hs'
      exact .inl ⟨hj, rfl⟩
    · exact .inr ⟨hj, hs'⟩
  refine ⟨fun tx t ht => ?_, fun j s' hs' tx htx => ?_, fun tx t ht j hj => ?_, fun j s' hs' => ?_,
    h.answers, fun j s' hs' => ?_⟩
  · simp only [begun, Table.get?_set] at ht ⊢
    split_ifs at ht with hnew
    · omega
    · have hold := h.opened tx t ht
      omega
  · simp only [begun]
    rcases hother j s' hs' with ⟨-, rfl⟩ | ⟨-, hold⟩
    · cases htx
      omega
    · have hlt := h.current j s' hold tx htx
      omega
  · simp only [begun, Table.get?_set] at ht ⊢
    split_ifs at ht with hnew
    · cases ht
      cases hj
      exact ⟨_, if_pos rfl, by rw [hnew]⟩
    · obtain ⟨s', hs', hcurrent⟩ := h.source tx t ht j hj
      have hji : j ≠ i := by
        rintro rfl
        rw [hs] at hs'
        cases hs'
        rw [pending, hcurrent, Option.bind_some, ht] at hidle
        cases hidle
      exact ⟨s', by rw [if_neg hji]; exact hs', hcurrent⟩
  · rcases hother j s' hs' with ⟨rfl, -⟩ | ⟨-, hold⟩
    · exact h.spawned j s hs
    · exact h.spawned j s' hold
  · rcases hother j s' hs' with ⟨rfl, rfl⟩ | ⟨-, hold⟩
    · have hsent := h.sent j s hs
      have hpending : ((w.appends.txs.set w.appends.started
          (fresh evidence ⟨s.runId, s.kind, chunk.text, some j⟩ w.appends.pub.clock)).get?
            w.appends.started) =
          some (fresh evidence ⟨s.runId, s.kind, chunk.text, some j⟩ w.appends.pub.clock) := by
        rw [Table.get?_set, if_pos rfl]
      refine ⟨hsent.answers, fun hnone => ?_, fun t ht => ?_⟩
      · rw [pending, Option.bind_some] at hnone
        cases hpending.symm.trans hnone
      · rw [pending, Option.bind_some] at ht
        cases hpending.symm.trans ht
        refine ⟨rfl, rfl, hsmall, ?_⟩
        rw [List.map_append, List.map_singleton]
        exact congrArg (· ++ [s.row chunk]) (hsent.idle hidle)
    · have hsent := (h.sent j s' hold).begun (h.current j s' hold) ⟨s.runId, s.kind, chunk.text, some i⟩
      exact ⟨hsent.answers, hsent.idle, hsent.busy⟩

theorem Streams.spawn (h : Streams w) (runId : Uuid) (kind : EvidenceKind) (chunks : List Chunk) :
    Streams { w with
      streams := w.streams.set w.spawned (stream runId kind chunks), spawned := w.spawned + 1 } := by
  have hnew : w.streams.get? w.spawned = none := by
    rw [Option.eq_none_iff_forall_ne_some]
    intro s hs
    have hlt := h.spawned _ s hs
    omega
  have hold : ∀ j s', (w.streams.set w.spawned (stream runId kind chunks)).get? j = some s' →
      (j = w.spawned ∧ s' = stream runId kind chunks) ∨ w.streams.get? j = some s' := by
    intro j s' hs'
    rw [Table.get?_set] at hs'
    split_ifs at hs' with hj
    · cases hs'
      exact .inl ⟨hj, rfl⟩
    · exact .inr hs'
  refine ⟨h.opened, fun j s' hs' tx htx => ?_, fun tx t ht j hj => ?_, fun j s' hs' => ?_,
    fun x hx j hj => Nat.lt_succ_of_lt (h.answers x hx j hj), fun j s' hs' => ?_⟩
  · rcases hold j s' hs' with ⟨-, rfl⟩ | hs
    · cases htx
    · exact h.current j s' hs tx htx
  · obtain ⟨s', hs', hcurrent⟩ := h.source tx t ht j hj
    have hne : j ≠ w.spawned := by
      rintro rfl
      rw [hnew] at hs'
      cases hs'
    exact ⟨s', by rw [Table.get?_set, if_neg hne]; exact hs', hcurrent⟩
  · rcases hold j s' hs' with ⟨rfl, -⟩ | hs
    · exact Nat.lt_succ_self _
    · exact Nat.lt_succ_of_lt (h.spawned j s' hs)
  · rcases hold j s' hs' with ⟨rfl, rfl⟩ | hs
    · have hnone : answered w.appends.pub.answers w.spawned = [] := by
        refine List.filter_eq_nil_iff.mpr fun x hx => ?_
        intro hsource
        have hlt := h.answers x hx w.spawned (by simpa using hsource)
        omega
      refine ⟨fun x hx => ?_, fun _ => ?_, fun t ht => (by cases ht)⟩
      · rw [hnone] at hx
        cases hx
      · rw [hnone]
        rfl
    · have hsent := h.sent j s' hs
      exact ⟨hsent.answers, hsent.idle, hsent.busy⟩

/-! ## Runs of the coordinator -/

structure Kept (w : World) : Prop where
  log : Transactions.Kept Logged (fun p t => Stage p.db t) w.appends
  streams : Streams w

theorem kept_init (runs : Table Uuid Run) : Kept (.init runs) where
  log := Transactions.kept_init 0 fun _ => .nil fun _ => rfl
  streams := streams_init runs

theorem lift_some {w' : World} {a : Transactions.Action Append EvidenceError}
    (h : w.lift a = some w') :
    ∃ appends, Step evidence w.appends a appends ∧ w' = { w with appends } := by
  obtain ⟨appends, hstep, rfl⟩ := Option.map_eq_some_iff.mp h
  exact ⟨appends, step_cases hstep, rfl⟩

def AllSucceed (w : World) : Prop :=
  ∀ x ∈ w.appends.pub.answers, Succeeds w.appends.pub.db.runs x

theorem allSucceed_answer {c : Append} {r : Except EvidenceError (Option Int)} {clock : Int}
    (hruns : db.runs = w.appends.pub.db.runs)
    (txs : Table Nat (Tx Append EvidenceDb (Uuid × Int) (Option Int) Insert EvidenceError)) :
    AllSucceed { w with appends := { w.appends with
        pub := ⟨clock, db, w.appends.pub.answers ++ [(c, r)]⟩, txs } } ↔
      AllSucceed w ∧ Succeeds w.appends.pub.db.runs (c, r) := by
  unfold AllSucceed
  rw [hruns, List.forall_mem_append, List.forall_mem_singleton]

theorem Stage.succeeds_iff (hlog : ∀ runId, ∃ rows, Numbered db.runEvidence runId rows)
    (h : Stage db t) (hrest : t.rest = stmt :: rest) {e : EvidenceError}
    (hexec : stmt.exec t.vars (view evidence db t.writes) = .error e) :
    Succeeds db.runs (t.call, .error e) ↔ ∀ seq ∈ t.vars,
      isPgText t.call.content = true ∧ seq = nextSeq db.runEvidence t.call.runId := by
  obtain ⟨rows, hrows⟩ := hlog t.call.runId
  cases h with
  | tooLarge hrest' hvars hsize =>
    refine iff_of_true (.inr (.inr hsize)) ?_
    rw [hvars]
    exact fun _ h => (by cases h)
  | started hrest' hvars hwrites hsize =>
    rw [hrest'] at hrest
    cases hrest
    rw [hwrites] at hexec
    unfold selectRun at hexec
    simp only at hexec
    split_ifs at hexec with hrun
    refine iff_of_true (.inr (.inl (Option.not_isSome_iff_eq_none.mp hrun))) ?_
    rw [hvars]
    exact fun _ h => (by cases h)
  | checked hrest' hvars hwrites hsize hrun =>
    rw [hrest'] at hrest
    cases hrest
    cases hexec
  | counted seq hrest' hvars hwrites hsize hrun hpos hle =>
    rw [hrest'] at hrest
    cases hrest
    rw [hwrites, hvars] at hexec
    unfold insert at hexec
    simp only at hexec
    split_ifs at hexec with hrefused
    refine iff_of_false ?_ ?_
    · rintro (hok | hnone | hlarge)
      · cases hok
      · rw [hnone] at hrun
        cases hrun
      · exact absurd hlarge (Nat.not_lt.mpr hsize)
    · intro hall
      obtain ⟨htext, hsame⟩ := hall seq hvars
      rw [htext, Bool.not_true, Bool.false_or] at hrefused
      have hlt := (isSome_iff_lt hrows hpos).mp hrefused
      omega
  | inserted hrest' => rw [hrest'] at hrest; cases hrest

theorem Stage.inTurn (hlog : ∀ runId, ∃ rows, Numbered db.runEvidence runId rows) (h : Stage db t)
    (hrest : t.rest = stmt :: rest) {r : Option Int × List Insert}
    (hexec : stmt.exec t.vars (view evidence db t.writes) = .ok r) :
    ∀ seq ∈ t.vars,
      isPgText t.call.content = true ∧ seq = nextSeq db.runEvidence t.call.runId := by
  obtain ⟨rows, hrows⟩ := hlog t.call.runId
  cases h with
  | tooLarge hrest' hvars => rw [hvars]; exact fun _ h => (by cases h)
  | started hrest' hvars => rw [hvars]; exact fun _ h => (by cases h)
  | checked hrest' hvars => rw [hvars]; exact fun _ h => (by cases h)
  | counted seq hrest' hvars hwrites hsize hrun hpos hle =>
    rw [hrest'] at hrest
    cases hrest
    rw [hwrites, hvars] at hexec
    unfold insert at hexec
    simp only at hexec
    split_ifs at hexec with hrefused
    obtain ⟨htext, hrow⟩ := not_refused hrefused
    have hfree : ¬ seq < nextSeq db.runEvidence t.call.runId :=
      fun hlt => hrow ((isSome_iff_lt hrows hpos).mpr hlt)
    intro seq' hseq
    rw [hvars] at hseq
    cases hseq
    exact ⟨htext, by omega⟩
  | inserted hrest' => rw [hrest'] at hrest; cases hrest

theorem kept_step {w' : World} {a : Action} (h : Kept w) (hstep : step w a = some w') :
    Kept w' ∧ (AllSucceed w' ↔ AllSucceed w ∧ InTurn w a) := by
  have hlog : ∀ runId, ∃ rows, Numbered w.appends.pub.db.runEvidence runId rows :=
    fun runId => ⟨_, h.log.inv runId⟩
  have hkept : ∀ {b appends}, Step evidence w.appends b appends →
      Transactions.Kept Logged (fun p t => Stage p.db t) appends :=
    fun hs => hs.kept evidence_rule (Guard.any_allows _ _) h.log
  cases a with
  | append runId kind content =>
    obtain ⟨appends, hs, rfl⟩ := lift_some hstep
    have hlog' := hkept hs
    cases hs with
    | begin =>
      exact ⟨⟨hlog', h.streams.append rfl⟩, (and_iff_left trivial).symm⟩
  | spawn runId kind chunks =>
    cases hstep
    exact ⟨⟨h.log, h.streams.spawn runId kind chunks⟩, (and_iff_left trivial).symm⟩
  | read i =>
    obtain ⟨s, hs, hstep⟩ := Option.bind_eq_some_iff.mp hstep
    split at hstep
    · cases hstep
    · rename_i chunk unread hunread
      split_ifs at hstep with hidle
      obtain ⟨w'', hlift, hstep⟩ := Option.bind_eq_some_iff.mp hstep
      obtain ⟨appends, hbegin, rfl⟩ := lift_some hlift
      cases hstep
      have hlog' := hkept hbegin
      cases hbegin with
      | begin =>
        refine ⟨⟨hlog', ?_⟩, (and_iff_left trivial).symm⟩
        exact h.streams.read hs (Option.isNone_iff_eq_none.mp hidle)
  | exec tx =>
    obtain ⟨appends, hs, rfl⟩ := lift_some hstep
    have hlog' := hkept hs
    have hturn : InTurn w (.exec tx) ↔ ∀ t, w.appends.txs.get? tx = some t → t.rest ≠ [] →
        ∀ seq ∈ t.vars, isPgText t.call.content = true ∧
          seq = nextSeq w.appends.pub.db.runEvidence t.call.runId := Iff.rfl
    cases hs with
    | exec hopen hrest hfree hexec =>
      refine ⟨⟨hlog', h.streams.goes hopen rfl⟩, (and_iff_left ?_).symm⟩
      intro t ht hne
      cases hopen.symm.trans ht
      exact (h.log.own _ _ hopen).inTurn hlog hrest hexec
    | refuse hopen hrest hexec =>
      refine ⟨⟨hlog', h.streams.ends hopen _ _ _⟩, ?_⟩
      have hanswer := (h.log.own _ _ hopen).succeeds_iff hlog hrest hexec
      refine (allSucceed_answer rfl _).trans (and_congr_right fun _ => ?_)
      rw [hturn, hanswer]
      simp [hopen, hrest]
  | commit tx =>
    obtain ⟨appends, hs, rfl⟩ := lift_some hstep
    have hlog' := hkept hs
    cases hs with
    | commit hopen hrest =>
      refine ⟨⟨hlog', h.streams.ends hopen _ _ _⟩, ?_⟩
      refine (allSucceed_answer (apply_runs _ _) _).trans (and_congr_right fun _ => ?_)
      exact iff_of_true (.inl rfl) trivial

theorem complete_iff (h : Kept w) : Complete w ↔ AllSucceed w := by
  refine ⟨Complete.succeeds, fun hall => ⟨hall, h.log.inv, fun i s hs hrun hidle => ?_⟩⟩
  have hsent := h.streams.sent i s hs
  refine ⟨fun x hx => ?_, hsent.idle hidle⟩
  obtain ⟨hsame, hsize⟩ := hsent.answers x hx
  rcases hall x (List.mem_of_mem_filter hx) with hok | hnone | hlarge
  · exact hok
  · rw [hsame] at hnone
    rw [hnone] at hrun
    cases hrun
  · exact absurd hlarge (Nat.not_lt.mpr hsize)

/-- Every append succeeds and no stream loses a chunk, exactly when no other append to the Run is
committed between an append's read of the next number and its insert, and the column takes each text
that is inserted. -/
theorem evidence_complete_iff {runs : Table Uuid Run} {actions : List Action} {w : World}
    (hrun : run step (.init runs) actions = some w) :
    Complete w ↔ Meets step InTurn (.init runs) actions := by
  have hinit : AllSucceed (.init runs) := fun _ h => (by cases h)
  have hkept := run_invariant Kept (fun _ _ _ hs hstep => (kept_step hs hstep).1) (kept_init runs) hrun
  rw [complete_iff hkept]
  refine (run_iff_meets Kept ?_ (kept_init runs) hrun).trans (and_iff_right hinit)
  exact fun s a s' hs hstep => kept_step hs hstep

instance (w : World) (a : Action) : Decidable (InTurn w a) :=
  match a with
  | .exec tx =>
    decidable_of_iff ((w.appends.txs.get? tx).all (fun t => t.rest.isEmpty || t.vars.all fun seq =>
        isPgText t.call.content && seq = nextSeq w.appends.pub.db.runEvidence t.call.runId) = true) (by
      unfold InTurn
      cases ht : w.appends.txs.get? tx with
      | none => simp [ht]
      | some t =>
        cases hvars : t.vars with
        | none => simp [ht, hvars]
        | some seq =>
          simp only [ht, hvars, Option.all_some, Option.mem_def, Option.some.injEq, forall_eq',
            Bool.or_eq_true, Bool.and_eq_true, List.isEmpty_iff, decide_eq_true_eq]
          tauto)
  | .append _ _ _ => isTrue trivial
  | .spawn _ _ _ => isTrue trivial
  | .read _ => isTrue trivial
  | .commit _ => isTrue trivial

def oneRun : Table Uuid Run :=
  (∅ : Table Uuid Run).set 1 ⟨7, none, "fix it", .delegated, .running, none, none⟩

def twoStreams : List Action :=
  [.spawn 1 .output [⟨"compiling", by decide⟩], .spawn 1 .error [⟨"warning", by decide⟩],
    .read 0, .read 1]

/-- The chunks are appended one after the other. -/
theorem evidence_complete_in_turn : ∃ w, run step (.init oneRun)
    (twoStreams ++
      [Action.exec 0, .exec 0, .exec 0, .commit 0, .exec 1, .exec 1, .exec 1, .commit 1]) =
      some w ∧ w.appends.pub.answers.length = 2 ∧ Complete w := by
  have hdemo : ((run step (.init oneRun) (twoStreams ++
      [Action.exec 0, .exec 0, .exec 0, .commit 0, .exec 1, .exec 1, .exec 1,
        .commit 1])).any fun w =>
        w.appends.pub.answers.length == 2) = true := by decide +kernel
  obtain ⟨w, hrun, h⟩ := (Option.any_eq_true _ _).mp hdemo
  exact ⟨w, hrun, eq_of_beq h, (evidence_complete_iff hrun).mpr (by decide +kernel)⟩

/-- Both streams read the same number, and the chunk of the second is lost. -/
theorem concurrent_chunk_lost :
    ¬ ∀ (runs : Table Uuid Run) (actions : List Action) (w : World),
      run step (.init runs) actions = some w → Complete w := by
  have hdemo : ((run step (.init oneRun) (twoStreams ++
      [Action.exec 0, .exec 0, .exec 1, .exec 1, .exec 0, .commit 0, .exec 1])).any fun w =>
        w.appends.pub.answers.map (·.2.isOk) == [true, false] &&
          w.appends.pub.answers.all (fun x => x.1.content.utf8ByteSize < 10) &&
          (w.appends.pub.db.runs.get? 1).isSome &&
          w.appends.pub.answers.all (fun x => x.1.runId = 1)) = true := by decide +kernel
  obtain ⟨w, hrun, h⟩ := (Option.any_eq_true _ _).mp hdemo
  simp only [Bool.and_eq_true, beq_iff_eq, List.all_eq_true, decide_eq_true_eq] at h
  obtain ⟨⟨⟨hresults, hsmall⟩, hthere⟩, hone⟩ := h
  intro hall
  have hfailed : false ∈ w.appends.pub.answers.map (·.2.isOk) := by
    rw [hresults]
    exact List.mem_cons_of_mem _ (List.mem_singleton_self _)
  obtain ⟨x, hx, hnot⟩ := List.mem_map.mp hfailed
  rcases (hall _ _ w hrun).succeeds x hx with hok | hnone | hlarge
  · rw [hnot] at hok
    cases hok
  · rw [hone x hx] at hnone
    rw [hnone] at hthere
    cases hthere
  · have hlt := hsmall x hx
    unfold maxContentBytes at hlarge
    omega

end Vingilot.Coordinator.Evidence
