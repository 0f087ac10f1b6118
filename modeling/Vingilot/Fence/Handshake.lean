import Mathlib.Data.List.Induction
import Vingilot.Lib.Machine
import Vingilot.Lib.Collections
import Vingilot.Fence.Ring

/-! # The heartbeat handshake: what a proved snapshot holds

One writer, any number of pods that probe it, and readers that see a prefix of its commit
log. The floor guard of migration 0021 checks each channel row at some moment between the
insert and the commit. A probe samples the clock, then scans the open transactions, then
commits its token.
-/

namespace Vingilot.Fence

open Machine

structure Row where
  channelId : Option Uuid
  createdAt : Int
deriving DecidableEq

structure Tx where
  start : Int
  unguarded : List Row
  guarded : List Row

inductive LogRecord where
  | commit (rows : List Row)
  | beat (token : Int) (epoch : Uuid)
deriving DecidableEq

abbrev TxId := Nat

/-- The writer. `token` and `epoch` are the single `replica_heartbeat` row. -/
structure Writer where
  clock : Int
  token : Int
  epoch : Uuid
  log : List LogRecord
  txs : Table TxId Tx

inductive TxAction where
  | advance (micros : Nat)
  | begin (id : TxId)
  | insert (id : TxId) (row : Row)
  | guard (id : TxId)
  | commit (id : TxId)
  | rollback (id : TxId)

/-- The test of `events_created_at_floor_guard`. Rows without a channel are exempt. -/
def belowFloor (now : Int) (row : Row) : Bool :=
  row.channelId.isSome && decide (row.createdAt < now - secs createdAtFloorSecs)

def Writer.step (w : Writer) : TxAction → Option Writer
  | .advance micros => some { w with clock := w.clock + micros }
  | .begin id =>
    match w.txs.get? id with
    | some _ => none
    | none => some { w with txs := w.txs.set id ⟨w.clock, [], []⟩ }
  | .insert id row =>
    match w.txs.get? id with
    | none => none
    | some tx => some { w with txs := w.txs.set id { tx with unguarded := tx.unguarded ++ [row] } }
  | .guard id =>
    match w.txs.get? id with
    | none => none
    | some tx =>
      match tx.unguarded with
      | [] => none
      | row :: rest =>
        if belowFloor w.clock row then some { w with txs := w.txs.remove id }
        else
          some { w with
            txs := w.txs.set id { tx with unguarded := rest, guarded := tx.guarded ++ [row] } }
  | .commit id =>
    match w.txs.get? id with
    | none => none
    | some tx =>
      if tx.unguarded = [] then
        some { w with txs := w.txs.remove id, log := w.log ++ [LogRecord.commit tx.guarded] }
      else none
  | .rollback id =>
    match w.txs.get? id with
    | none => none
    | some _ => some { w with txs := w.txs.remove id }

/-- `UPDATE replica_heartbeat SET token = token + 1`, with the epoch it leaves in the row. -/
def Writer.beat (w : Writer) (epoch : Uuid) : Writer :=
  { w with token := w.token + 1, epoch := epoch, log := w.log ++ [LogRecord.beat (w.token + 1) epoch] }

/-- `min(xact_start)` over the open transactions. -/
def Writer.oldestXactStart (w : Writer) : Option Int :=
  (w.txs.toList.map fun (_, tx) => tx.start).min?

/-- How far a pod's `probe_once` has got. -/
inductive ProbePhase where
  | idle
  | sampled (sampledAt : Int)
  | scanned (sampledAt : Int) (oldestXactStart : Option Int)
  | committed (token : Int) (epoch : Uuid) (committedAt : Nat) (wall : Int)
  | rotating (wall : Int)

structure Pod where
  fence : ReplicaFence
  phase : ProbePhase

abbrev PodId := Nat

structure World where
  writer : Writer
  pods : PodId → Pod

def World.init (clock : Int) (token : Int) (epoch : Uuid) : World :=
  ⟨⟨clock, token, epoch, [], ∅⟩, fun _ => ⟨.new, .idle⟩⟩

inductive Action where
  | tx (a : TxAction)
  | sample (pod : PodId)
  | scan (pod : PodId)
  | beat (pod : PodId) (committedAt : Nat)
  | record (pod : PodId)
  | rotate (pod : PodId) (committedAt : Nat) (epoch : Uuid)
  | fail (pod : PodId)
  | failAfterBeat (pod : PodId)

def World.setPod (w : World) (pod : PodId) (p : Pod) : World :=
  { w with pods := Function.update w.pods pod p }

@[simp]
theorem setPod_self (w : World) (pod : PodId) (p : Pod) : (w.setPod pod p).pods pod = p :=
  Function.update_self ..

@[simp]
theorem setPod_of_ne (w : World) {pod pod' : PodId} (p : Pod) (h : pod' ≠ pod) :
    (w.setPod pod p).pods pod' = w.pods pod' := Function.update_of_ne h ..

def step (w : World) : Action → Option World
  | .tx a => (w.writer.step a).map fun writer => { w with writer := writer }
  | .sample pod =>
    match (w.pods pod).phase with
    | .idle => some (w.setPod pod ⟨(w.pods pod).fence, .sampled w.writer.clock⟩)
    | _ => none
  | .scan pod =>
    match (w.pods pod).phase with
    | .sampled s =>
      some (w.setPod pod ⟨(w.pods pod).fence, .scanned s w.writer.oldestXactStart⟩)
    | _ => none
  | .beat pod committedAt =>
    match (w.pods pod).phase with
    | .scanned s oldest =>
      let writer := w.writer.beat w.writer.epoch
      let phase := .committed writer.token writer.epoch committedAt (fenceWall s oldest)
      some ({ w with writer := writer }.setPod pod ⟨(w.pods pod).fence, phase⟩)
    | _ => none
  | .record pod =>
    match (w.pods pod).phase with
    | .committed token epoch committedAt wall =>
      match (w.pods pod).fence.record token epoch committedAt wall with
      | (fence, .recorded) => some (w.setPod pod ⟨fence, .idle⟩)
      | (fence, .tokenRegression) => some (w.setPod pod ⟨fence, .rotating wall⟩)
    | _ => none
  | .rotate pod committedAt epoch =>
    match (w.pods pod).phase with
    | .rotating wall =>
      let writer := w.writer.beat epoch
      let fence := ((w.pods pod).fence.record writer.token epoch committedAt wall).1
      some ({ w with writer := writer }.setPod pod ⟨fence, .idle⟩)
    | _ => none
  | .fail pod =>
    match (w.pods pod).phase with
    | .idle => none
    | _ => some (w.setPod pod ⟨(w.pods pod).fence.close, .idle⟩)
  | .failAfterBeat pod =>
    match (w.pods pod).phase with
    | .scanned _ _ =>
      some ({ w with writer := w.writer.beat w.writer.epoch }.setPod pod
        ⟨(w.pods pod).fence.close, .idle⟩)
    | _ => none

def observe (initial : Int × Uuid) (snapshot : List LogRecord) : Int × Uuid :=
  snapshot.foldl (fun seen r => match r with
    | .beat token epoch => (token, epoch)
    | .commit _ => seen) initial

/-! ## What one move of the writer can do -/

inductive Appends (w w' : Writer) : Prop
  | nothing (hlog : w'.log = w.log) (htoken : w'.token = w.token) (hepoch : w'.epoch = w.epoch)
  | commit (id : TxId) (tx : Tx) (hget : w.txs.get? id = some tx)
      (hlog : w'.log = w.log ++ [LogRecord.commit tx.guarded]) (htoken : w'.token = w.token)
      (hepoch : w'.epoch = w.epoch)
  | beat (epoch : Uuid) (hlog : w'.log = w.log ++ [LogRecord.beat (w.token + 1) epoch])
      (htoken : w'.token = w.token + 1) (hepoch : w'.epoch = epoch)

/-- An open transaction was open before with the same start, or starts now. Its guarded
rows were guarded before or pass the guard now. -/
def TxsFrom (w w' : Writer) : Prop :=
  ∀ id tx', w'.txs.get? id = some tx' →
    (∃ tx, w.txs.get? id = some tx ∧ tx'.start = tx.start ∧
      ∀ row ∈ tx'.guarded, row ∈ tx.guarded ∨ belowFloor w.clock row = false) ∨
    (tx'.start = w.clock ∧ tx'.guarded = [])

structure Moves (w w' : Writer) : Prop where
  clock : w.clock ≤ w'.clock
  log : Appends w w'
  txs : TxsFrom w w'

variable {w w' : Writer}

theorem txsFrom_of_eq (h : w'.txs = w.txs) : TxsFrom w w' := by
  intro id tx hget
  rw [h] at hget
  exact Or.inl ⟨tx, hget, rfl, fun _ hrow => Or.inl hrow⟩

theorem txsFrom_remove (id : TxId) (h : w'.txs = w.txs.remove id) : TxsFrom w w' := by
  intro id' tx hget
  rw [h, Table.get?_remove] at hget
  split_ifs at hget
  exact Or.inl ⟨tx, hget, rfl, fun _ hrow => Or.inl hrow⟩

theorem txsFrom_set (id : TxId) (new : Tx) (h : w'.txs = w.txs.set id new)
    (hnew : (∃ tx, w.txs.get? id = some tx ∧ new.start = tx.start ∧
        ∀ row ∈ new.guarded, row ∈ tx.guarded ∨ belowFloor w.clock row = false) ∨
      (new.start = w.clock ∧ new.guarded = [])) : TxsFrom w w' := by
  intro id' tx hget
  rw [h, Table.get?_set] at hget
  split_ifs at hget with hid
  · subst hid
    cases hget
    exact hnew
  · exact Or.inl ⟨tx, hget, rfl, fun _ hrow => Or.inl hrow⟩

theorem moves_refl (w : Writer) : Moves w w :=
  ⟨Int.le_refl _, .nothing rfl rfl rfl, txsFrom_of_eq rfl⟩

theorem moves_beat (w : Writer) (epoch : Uuid) : Moves w (w.beat epoch) :=
  ⟨Int.le_refl _, .beat epoch rfl rfl rfl, txsFrom_of_eq rfl⟩

theorem moves_step (w w' : Writer) (a : TxAction) (h : w.step a = some w') : Moves w w' := by
  cases a with
  | advance micros =>
    cases h
    exact ⟨by dsimp only; omega, .nothing rfl rfl rfl, txsFrom_of_eq rfl⟩
  | begin id =>
    simp only [Writer.step] at h
    split at h <;> cases h
    exact ⟨Int.le_refl _, .nothing rfl rfl rfl, txsFrom_set id _ rfl (Or.inr ⟨rfl, rfl⟩)⟩
  | insert id row =>
    simp only [Writer.step] at h
    split at h <;> cases h
    rename_i tx hget
    refine ⟨Int.le_refl _, .nothing rfl rfl rfl, txsFrom_set id _ rfl (Or.inl ⟨tx, hget, rfl, ?_⟩)⟩
    exact fun _ hrow => Or.inl hrow
  | guard id =>
    simp only [Writer.step] at h
    split at h <;> try cases h
    rename_i tx hget
    split at h <;> try cases h
    rename_i row rest _
    split_ifs at h with hfloor <;> cases h
    · exact ⟨Int.le_refl _, .nothing rfl rfl rfl, txsFrom_remove id rfl⟩
    · refine ⟨Int.le_refl _, .nothing rfl rfl rfl, txsFrom_set id _ rfl (Or.inl ⟨tx, hget, rfl, ?_⟩)⟩
      intro r hr
      rw [List.mem_append, List.mem_singleton] at hr
      rcases hr with hr | rfl
      · exact Or.inl hr
      · exact Or.inr (by simpa using hfloor)
  | commit id =>
    simp only [Writer.step] at h
    split at h <;> try cases h
    rename_i tx hget
    split_ifs at h
    cases h
    exact ⟨Int.le_refl _, .commit id tx hget rfl rfl rfl, txsFrom_remove id rfl⟩
  | rollback id =>
    simp only [Writer.step] at h
    split at h <;> cases h
    exact ⟨Int.le_refl _, .nothing rfl rfl rfl, txsFrom_remove id rfl⟩

theorem epoch_step (w w' : Writer) (a : TxAction) (h : w.step a = some w') :
    w'.epoch = w.epoch := by
  cases a <;> simp only [Writer.step] at h <;> (repeat' split at h) <;> cases h <;> rfl

/-! ## Bounds that no later move breaks -/

/-- Every open transaction started at or after `lower`, and so will every later one. -/
def StartsFrom (w : Writer) (lower : Int) : Prop :=
  lower ≤ w.clock ∧ ∀ id tx, w.txs.get? id = some tx → lower ≤ tx.start

def RowsGuarded (w : Writer) : Prop :=
  ∀ id tx, w.txs.get? id = some tx → tx.start ≤ w.clock ∧
    ∀ row ∈ tx.guarded, row.channelId.isSome → tx.start - secs createdAtFloorSecs ≤ row.createdAt

/-- No transaction that is still to commit can bring a channel row at or below the wall. -/
def WallHolds (w : Writer) (wall : Int) : Prop :=
  ∃ lower, wall < lower - secs createdAtFloorSecs ∧ StartsFrom w lower

/-- The token `token` is in the log, and every channel row committed after it is above
the wall. -/
structure Covers (w : Writer) (token : Int) (wall : Int) : Prop where
  holds : WallHolds w wall
  after : ∃ (j : Nat) (epoch : Uuid), w.log[j]? = some (.beat token epoch) ∧
    ∀ (i : Nat) (rows : List Row), j < i → w.log[i]? = some (.commit rows) →
      ∀ row ∈ rows, row.channelId.isSome → wall < row.createdAt

theorem createdAt_of_not_belowFloor {now : Int} {row : Row} (h : belowFloor now row = false)
    (hch : row.channelId.isSome) : now - secs createdAtFloorSecs ≤ row.createdAt := by
  simp only [belowFloor, hch, Bool.true_and, decide_eq_false_iff_not] at h
  omega

theorem startsFrom_moves {lower : Int} (hm : Moves w w') (h : StartsFrom w lower) :
    StartsFrom w' lower := by
  refine ⟨Int.le_trans h.1 hm.clock, ?_⟩
  intro id tx hget
  rcases hm.txs id tx hget with ⟨old, hold, hstart, -⟩ | ⟨hstart, -⟩
  · rw [hstart]; exact h.2 id old hold
  · rw [hstart]; exact h.1

variable {wall : Int}

theorem wallHolds_moves (hm : Moves w w') (h : WallHolds w wall) : WallHolds w' wall := by
  obtain ⟨lower, hwall, hstarts⟩ := h
  exact ⟨lower, hwall, startsFrom_moves hm hstarts⟩

theorem rowsGuarded_moves (hm : Moves w w') (h : RowsGuarded w) : RowsGuarded w' := by
  intro id tx hget
  have hclock := hm.clock
  rcases hm.txs id tx hget with ⟨old, hold, hstart, hrows⟩ | ⟨hstart, hrows⟩
  · obtain ⟨hle, hguard⟩ := h id old hold
    refine ⟨by omega, ?_⟩
    intro row hrow hch
    rw [hstart]
    rcases hrows row hrow with hmem | hpass
    · exact hguard row hmem hch
    · have hfloor := createdAt_of_not_belowFloor hpass hch
      omega
  · exact ⟨by omega, fun row hrow => by simp [hrows] at hrow⟩

variable {i : Nat} {r : LogRecord}

theorem getElem?_moves (hm : Moves w w') (h : w.log[i]? = some r) : w'.log[i]? = some r := by
  have hi : i < w.log.length := (List.getElem?_eq_some_iff.mp h).1
  cases hm.log with
  | nothing hlog => rwa [hlog]
  | commit id tx hget hlog => rwa [hlog, List.getElem?_append_left hi]
  | beat epoch hlog => rwa [hlog, List.getElem?_append_left hi]

theorem getElem?_concat {l : List LogRecord} {x : LogRecord} (h : (l ++ [x])[i]? = some r) :
    l[i]? = some r ∨ (i = l.length ∧ r = x) := by
  by_cases hi : i < l.length
  · rw [List.getElem?_append_left hi] at h
    exact Or.inl h
  · rw [List.getElem?_append_right (Nat.le_of_not_lt hi)] at h
    have hzero : i - l.length = 0 := by
      have hlt := (List.getElem?_eq_some_iff.mp h).1
      simpa using hlt
    rw [hzero] at h
    simp only [List.getElem?_cons_zero, Option.some.injEq] at h
    exact Or.inr ⟨by omega, h.symm⟩

theorem commit_of_moves (hm : Moves w w') {rows : List Row} (h : w'.log[i]? = some (.commit rows)) :
    w.log[i]? = some (.commit rows) ∨ ∃ id tx, w.txs.get? id = some tx ∧ rows = tx.guarded := by
  cases hm.log with
  | nothing hlog => rw [hlog] at h; exact Or.inl h
  | commit id tx hget hlog =>
    rw [hlog] at h
    rcases getElem?_concat h with hold | ⟨-, hnew⟩
    · exact Or.inl hold
    · cases hnew
      exact Or.inr ⟨id, tx, hget, rfl⟩
  | beat epoch hlog =>
    rw [hlog] at h
    rcases getElem?_concat h with hold | ⟨-, hnew⟩
    · exact Or.inl hold
    · cases hnew

variable {token : Int}

theorem covers_moves (hm : Moves w w') (hg : RowsGuarded w) (h : Covers w token wall) :
    Covers w' token wall := by
  obtain ⟨lower, hwall, hstarts⟩ := h.holds
  obtain ⟨j, epoch, hbeat, hafter⟩ := h.after
  refine ⟨wallHolds_moves hm h.holds, j, epoch, getElem?_moves hm hbeat, ?_⟩
  intro i rows hij hget row hrow hch
  rcases commit_of_moves hm hget with hold | ⟨id, tx, hopen, rfl⟩
  · exact hafter i rows hij hold row hrow hch
  · -- Bucket (b) or (c): the row is no older than the floor below its transaction's start.
    have hguard := (hg id tx hopen).2 row hrow hch
    have hstart := hstarts.2 id tx hopen
    omega

/-! ## Tokens grow along the log -/

structure TokensGrow (token₀ : Int) (epoch₀ : Uuid) (w : Writer) : Prop where
  bounds : ∀ (i : Nat) (token : Int) (epoch : Uuid), w.log[i]? = some (.beat token epoch) →
    token₀ < token ∧ token ≤ w.token ∧ epoch = epoch₀
  sorted : ∀ (i j : Nat) (t t' : Int) (e e' : Uuid), w.log[i]? = some (.beat t e) →
    w.log[j]? = some (.beat t' e') → i < j → t < t'
  current : token₀ ≤ w.token ∧ w.epoch = epoch₀

variable {token₀ : Int} {epoch₀ : Uuid}

theorem tokensGrow_moves (hm : Moves w w') (hepoch : w'.epoch = w.epoch)
    (h : TokensGrow token₀ epoch₀ w) : TokensGrow token₀ epoch₀ w' := by
  have hkeep : ∀ x, w'.log = w.log ++ [LogRecord.commit x] → w'.token = w.token →
      TokensGrow token₀ epoch₀ w' := by
    intro x hlog htoken
    have hold : ∀ (i : Nat) (t : Int) (e : Uuid), w'.log[i]? = some (.beat t e) →
        w.log[i]? = some (.beat t e) := by
      intro i t e hget
      rw [hlog] at hget
      refine (getElem?_concat hget).resolve_right ?_
      rintro ⟨-, hnew⟩
      cases hnew
    refine ⟨?_, ?_, by rw [htoken, hepoch]; exact h.current⟩
    · intro i t e hget
      rw [htoken]
      exact h.bounds i t e (hold i t e hget)
    · intro i j t t' e e' hi hj
      exact h.sorted i j t t' e e' (hold i t e hi) (hold j t' e' hj)
  cases hm.log with
  | nothing hlog htoken =>
    refine ⟨?_, ?_, by rw [htoken, hepoch]; exact h.current⟩
    · rw [hlog, htoken]; exact h.bounds
    · rw [hlog]; exact h.sorted
  | commit id tx hget hlog htoken => exact hkeep _ hlog htoken
  | beat epoch hlog htoken hnew =>
    obtain ⟨hcur, hcurEpoch⟩ := h.current
    refine ⟨?_, ?_, by omega, by rw [hepoch, hcurEpoch]⟩
    · intro i t e hget
      rw [hlog] at hget
      rcases getElem?_concat hget with hold | ⟨-, hrec⟩
      · obtain ⟨hlow, hhigh, he⟩ := h.bounds i t e hold
        exact ⟨hlow, by omega, he⟩
      · cases hrec
        exact ⟨by omega, by omega, by rw [← hnew, hepoch, hcurEpoch]⟩
    · intro i j t t' e e' hi hj hij
      rw [hlog] at hi hj
      rcases getElem?_concat hj with hjold | ⟨hjlast, hjrec⟩
      · rcases getElem?_concat hi with hiold | ⟨hilast, -⟩
        · exact h.sorted i j t t' e e' hiold hjold hij
        · have hlt := (List.getElem?_eq_some_iff.mp hjold).1
          omega
      · rcases getElem?_concat hi with hiold | ⟨hilast, -⟩
        · have hle := (h.bounds i t e hiold).2.1
          cases hjrec
          omega
        · omega

theorem observe_concat (initial : Int × Uuid) (l : List LogRecord) (r : LogRecord) :
    observe initial (l ++ [r]) = match r with
      | .beat token epoch => (token, epoch)
      | .commit _ => observe initial l := by
  simp [observe]

theorem observe_mem (initial : Int × Uuid) (l : List LogRecord) :
    observe initial l = initial ∨
      ∃ i : Nat, l[i]? = some (.beat (observe initial l).1 (observe initial l).2) := by
  induction l using List.reverseRecOn with
  | nil => exact Or.inl rfl
  | append_singleton l r ih =>
    rw [observe_concat]
    cases r with
    | beat token epoch => exact Or.inr ⟨l.length, by simp⟩
    | commit rows =>
      refine ih.imp_right ?_
      rintro ⟨i, hi⟩
      exact ⟨i, by rw [List.getElem?_append_left (List.getElem?_eq_some_iff.mp hi).1]; exact hi⟩

theorem lt_of_observe (h : TokensGrow token₀ epoch₀ w) {k j : Nat} {epoch : Uuid}
    (hbeat : w.log[j]? = some (.beat token epoch))
    (hobs : token ≤ (observe (token₀, epoch₀) (w.log.take k)).1) : j < k := by
  by_contra hge
  rcases observe_mem (token₀, epoch₀) (w.log.take k) with heq | ⟨i, hi⟩
  · rw [heq] at hobs
    have hlow := (h.bounds j token epoch hbeat).1
    dsimp only at hobs
    omega
  · have hik : i < k := by
      have hlt := (List.getElem?_eq_some_iff.mp hi).1
      rw [List.length_take] at hlt
      omega
    rw [List.getElem?_take_of_lt hik] at hi
    have hlt := h.sorted i j _ _ _ _ hi hbeat (by omega)
    omega

/-! ## Every state the pods can reach -/

def PhaseSound (w : Writer) (p : Pod) : Prop :=
  match p.phase with
  | .idle => True
  | .sampled s => s ≤ w.clock
  | .scanned s oldest => WallHolds w (fenceWall s oldest)
  | .committed token _ _ wall => Covers w token wall ∧ ∀ entry ∈ p.fence.ring, entry.token < token
  -- Within one epoch the tokens of a pod's probes only grow.
  | .rotating _ => False

structure Inv (token₀ : Int) (epoch₀ : Uuid) (w : World) : Prop where
  guarded : RowsGuarded w.writer
  tokens : TokensGrow token₀ epoch₀ w.writer
  rings : ∀ pod, ∀ entry ∈ (w.pods pod).fence.ring, Covers w.writer entry.token entry.fenceWall
  phases : ∀ pod, PhaseSound w.writer (w.pods pod)

theorem inv_init (clock token₀ : Int) (epoch₀ : Uuid) :
    Inv token₀ epoch₀ (.init clock token₀ epoch₀) where
  guarded id tx hget := by cases hget
  tokens := ⟨fun i t e h => by simp [World.init] at h, fun i j t t' e e' h => by simp [World.init] at h,
    Int.le_refl _, rfl⟩
  rings pod entry h := by cases h
  phases pod := trivial

theorem phaseSound_moves {p : Pod} (hm : Moves w w') (hg : RowsGuarded w) (h : PhaseSound w p) :
    PhaseSound w' p := by
  unfold PhaseSound at *
  cases hp : p.phase with
  | idle => trivial
  | sampled s =>
    simp only [hp] at h ⊢
    exact Int.le_trans h hm.clock
  | scanned s oldest =>
    simp only [hp] at h ⊢
    exact wallHolds_moves hm h
  | committed token epoch committedAt wall =>
    simp only [hp] at h ⊢
    exact ⟨covers_moves hm hg h.1, h.2⟩
  | rotating wall => simp only [hp] at h

theorem inv_moves {w : World} {writer : Writer} (hm : Moves w.writer writer)
    (hepoch : writer.epoch = w.writer.epoch) (h : Inv token₀ epoch₀ w) :
    Inv token₀ epoch₀ { w with writer := writer } where
  guarded := rowsGuarded_moves hm h.guarded
  tokens := tokensGrow_moves hm hepoch h.tokens
  rings pod entry hentry := covers_moves hm h.guarded (h.rings pod entry hentry)
  phases pod := phaseSound_moves hm h.guarded (h.phases pod)

theorem inv_setPod {w : World} (pod : PodId) (p : Pod)
    (hring : ∀ entry ∈ p.fence.ring, Covers w.writer entry.token entry.fenceWall)
    (hphase : PhaseSound w.writer p) (h : Inv token₀ epoch₀ w) :
    Inv token₀ epoch₀ (w.setPod pod p) where
  guarded := h.guarded
  tokens := h.tokens
  rings pod' entry hentry := by
    by_cases hpod : pod' = pod
    · subst hpod
      rw [setPod_self] at hentry
      exact hring entry hentry
    · rw [setPod_of_ne w p hpod] at hentry
      exact h.rings pod' entry hentry
  phases pod' := by
    by_cases hpod : pod' = pod
    · subst hpod
      rw [setPod_self]
      exact hphase
    · rw [setPod_of_ne w p hpod]
      exact h.phases pod'

theorem wallHolds_scan (w : Writer) (s : Int) (hs : s ≤ w.clock) :
    WallHolds w (fenceWall s w.oldestXactStart) := by
  have hmargin : 0 < secs fenceClockMarginSecs := by decide
  cases hold : w.oldestXactStart with
  | none =>
    refine ⟨s, by dsimp only [fenceWall]; omega, hs, ?_⟩
    intro id tx hget
    have hnil : w.txs.toList = [] := by
      simpa [Writer.oldestXactStart, List.min?_eq_none_iff] using hold
    have hmem := (Table.mem_toList w.txs id tx).mpr hget
    rw [hnil] at hmem
    cases hmem
  | some oldest =>
    refine ⟨min oldest s, by dsimp only [fenceWall]; omega, by omega, ?_⟩
    intro id tx hget
    have hmem : tx.start ∈ w.txs.toList.map fun (_, tx) => tx.start :=
      List.mem_map.mpr ⟨(id, tx), (Table.mem_toList w.txs id tx).mpr hget, rfl⟩
    have hle := (List.min?_eq_some_iff.mp hold).2 _ hmem
    omega

theorem covers_beat (epoch : Uuid) (h : WallHolds w wall) :
    Covers (w.beat epoch) (w.beat epoch).token wall := by
  refine ⟨wallHolds_moves (moves_beat w epoch) h, w.log.length, epoch, by simp [Writer.beat], ?_⟩
  intro i rows hi hget
  have hlt := (List.getElem?_eq_some_iff.mp hget).1
  simp only [Writer.beat, List.length_append, List.length_singleton] at hlt
  omega

theorem token_le_of_covers (ht : TokensGrow token₀ epoch₀ w) (h : Covers w token wall) :
    token ≤ w.token := by
  obtain ⟨j, epoch, hbeat, -⟩ := h.after
  exact (ht.bounds j token epoch hbeat).2.1

theorem inv_step (w : World) (a : Action) (w' : World) (h : Inv token₀ epoch₀ w)
    (hstep : step w a = some w') : Inv token₀ epoch₀ w' := by
  cases a with
  | tx a =>
    obtain ⟨writer, hw, rfl⟩ := Option.map_eq_some_iff.mp hstep
    exact inv_moves (moves_step _ _ a hw) (epoch_step _ _ a hw) h
  | sample pod =>
    simp only [step] at hstep
    split at hstep <;> cases hstep
    exact inv_setPod pod _ (h.rings pod) (Int.le_refl _) h
  | scan pod =>
    simp only [step] at hstep
    split at hstep <;> cases hstep
    rename_i s hphase
    have hs : s ≤ w.writer.clock := by simpa [PhaseSound, hphase] using h.phases pod
    exact inv_setPod pod _ (h.rings pod) (wallHolds_scan w.writer s hs) h
  | beat pod committedAt =>
    simp only [step] at hstep
    split at hstep <;> cases hstep
    rename_i s oldest hphase
    have hwall : WallHolds w.writer (fenceWall s oldest) := by
      simpa [PhaseSound, hphase] using h.phases pod
    have hmoved := inv_moves (moves_beat w.writer w.writer.epoch) rfl h
    refine inv_setPod pod _ (hmoved.rings pod) ⟨covers_beat _ hwall, ?_⟩ hmoved
    intro entry hentry
    have hle := token_le_of_covers h.tokens (h.rings pod entry hentry)
    simp only [Writer.beat]
    omega
  | record pod =>
    simp only [step] at hstep
    split at hstep <;> try cases hstep
    rename_i token epoch committedAt wall hphase
    have hsound : Covers w.writer token wall ∧
        ∀ entry ∈ (w.pods pod).fence.ring, entry.token < token := by
      simpa [PhaseSound, hphase] using h.phases pod
    rcases (w.pods pod).fence.record_cases token epoch committedAt wall with
      ⟨-, hrec⟩ | ⟨-, ⟨last, hlast, hle⟩, -⟩ | ⟨-, -, hrec⟩
    · rw [hrec] at hstep
      cases hstep
      refine inv_setPod pod _ ?_ trivial h
      intro entry hentry
      cases List.mem_singleton.mp hentry
      exact hsound.1
    · have hlt := hsound.2 last (List.mem_of_getLast? hlast)
      omega
    · rw [hrec] at hstep
      cases hstep
      refine inv_setPod pod _ ?_ trivial h
      intro entry hentry
      rcases ReplicaFence.mem_pushBack _ _ _ hentry with hmem | rfl
      · exact h.rings pod entry hmem
      · exact hsound.1
  | rotate pod committedAt epoch =>
    simp only [step] at hstep
    split at hstep <;> cases hstep
    rename_i wall hphase
    have hfalse := h.phases pod
    simp [PhaseSound, hphase] at hfalse
  | fail pod =>
    simp only [step] at hstep
    split at hstep <;> cases hstep
    exact inv_setPod pod _ (fun entry hentry => by cases hentry) trivial h
  | failAfterBeat pod =>
    simp only [step] at hstep
    split at hstep <;> cases hstep
    have hmoved := inv_moves (moves_beat w.writer w.writer.epoch) rfl h
    exact inv_setPod pod _ (fun entry hentry => by cases hentry) trivial hmoved

variable {as : List Action}

theorem inv_run {w w' : World} (h : Inv token₀ epoch₀ w) (hrun : run step w as = some w') :
    Inv token₀ epoch₀ w' :=
  run_invariant _ inv_step h hrun

/-! ## Snapshots -/

theorem moves_of_step (w : World) (a : Action) (w' : World) (hstep : step w a = some w') :
    Moves w.writer w'.writer := by
  cases a with
  | tx a =>
    obtain ⟨writer, hw, rfl⟩ := Option.map_eq_some_iff.mp hstep
    exact moves_step _ _ a hw
  | beat pod committedAt =>
    simp only [step] at hstep
    split at hstep <;> cases hstep
    exact moves_beat ..
  | failAfterBeat pod =>
    simp only [step] at hstep
    split at hstep <;> cases hstep
    exact moves_beat ..
  | rotate pod committedAt epoch =>
    simp only [step] at hstep
    split at hstep <;> cases hstep
    exact moves_beat ..
  | record pod =>
    simp only [step] at hstep
    split at hstep <;> try cases hstep
    split at hstep <;> cases hstep <;> exact moves_refl _
  | sample pod =>
    simp only [step] at hstep
    split at hstep <;> cases hstep
    exact moves_refl _
  | scan pod =>
    simp only [step] at hstep
    split at hstep <;> cases hstep
    exact moves_refl _
  | fail pod =>
    simp only [step] at hstep
    split at hstep <;> cases hstep
    exact moves_refl _

theorem covers_run {w w' : World} (h : Inv token₀ epoch₀ w) (hc : Covers w.writer token wall)
    (hrun : run step w as = some w') : Covers w'.writer token wall := by
  have hboth : Inv token₀ epoch₀ w' ∧ Covers w'.writer token wall := by
    refine run_invariant (fun w => Inv token₀ epoch₀ w ∧ Covers w.writer token wall) ?_ ⟨h, hc⟩ hrun
    rintro s a s' ⟨hinv, hcov⟩ hstep
    exact ⟨inv_step s a s' hinv hstep, covers_moves (moves_of_step s a s' hstep) hinv.guarded hcov⟩
  exact hboth.2

theorem getElem?_run {w w' : World} (hrun : run step w as = some w') (h : w.writer.log[i]? = some r) :
    w'.writer.log[i]? = some r := by
  refine run_invariant (fun w => w.writer.log[i]? = some r) ?_ h hrun
  intro s a s' hget hstep
  exact getElem?_moves (moves_of_step s a s' hstep) hget

/-- A snapshot that proves an entry holds every channel row at or below the entry's wall that
is committed at any time. -/
theorem proved_snapshot_holds_every_row (clock token₀ : Int) (epoch₀ : Uuid) (as bs : List Action)
    (w w' : World) (hrun : run step (.init clock token₀ epoch₀) as = some w)
    (hlater : run step w bs = some w') (pod : PodId) (k : Nat) (entry : TokenEntry)
    (hproved : (w.pods pod).fence.resolve (observe (token₀, epoch₀) (w.writer.log.take k)).1
      (observe (token₀, epoch₀) (w.writer.log.take k)).2 = .proved entry)
    (i : Nat) (rows : List Row) (hcommit : w'.writer.log[i]? = some (.commit rows)) (row : Row)
    (hrow : row ∈ rows) (hch : row.channelId.isSome) (hwall : row.createdAt ≤ entry.fenceWall) :
    (w.writer.log.take k)[i]? = some (.commit rows) := by
  have hinv := inv_run (inv_init clock token₀ epoch₀) hrun
  obtain ⟨hmem, htoken, -⟩ := ReplicaFence.resolve_proved hproved
  have hcov := hinv.rings pod entry hmem
  obtain ⟨j, epoch, hbeat, -⟩ := hcov.after
  have hjk : j < k := lt_of_observe hinv.tokens hbeat htoken
  have hjlen : j < w.writer.log.length := (List.getElem?_eq_some_iff.mp hbeat).1
  -- The row is not committed after the token: from there on only rows above the wall are.
  have hij : i < j := by
    have hbeat' := getElem?_run hlater hbeat
    obtain ⟨j', epoch', hj', hafter⟩ := (covers_run hinv hcov hlater).after
    have hsorted := (inv_run hinv hlater).tokens.sorted
    have hsame : ¬ j < j' := fun hlt => by
      have hgrow := hsorted _ _ _ _ _ _ hbeat' hj' hlt
      omega
    have hne : i ≠ j := by
      rintro rfl
      rw [hcommit] at hbeat'
      cases hbeat'
    have hle : ¬ j' < i := fun hlt => by
      have habove := hafter i rows hlt hcommit row hrow hch
      omega
    omega
  have hold : w.writer.log[i]? = some (.commit rows) := by
    have hget : w.writer.log[i]? = some (w.writer.log[i]) := List.getElem?_eq_getElem (by omega)
    rw [hget, ← hcommit, getElem?_run hlater hget]
  rw [List.getElem?_take_of_lt (by omega)]
  exact hold

def rowThenProbe : List Action :=
  [.tx (.begin 1), .tx (.insert 1 ⟨some 5, secs 1031⟩), .tx (.guard 1), .tx (.commit 1),
    .tx (.advance 10000000), .sample 0, .scan 0, .beat 0 7, .record 0]

theorem proved_snapshot_holds_every_row_rowThenProbe :
    ∃ w, run step (.init (secs 1990) 0 3) rowThenProbe = some w ∧
      (w.writer.log.take 2)[0]? = some (.commit [⟨some 5, secs 1031⟩]) := by
  obtain ⟨w, hrun⟩ := Option.isSome_iff_exists.mp
    (show (run step (.init (secs 1990) 0 3) rowThenProbe).isSome by decide)
  have hstate : ((run step (.init (secs 1990) 0 3) rowThenProbe).map fun w =>
      (w.writer.log, (w.pods 0).fence)) =
      some ([.commit [⟨some 5, secs 1031⟩], .beat 1 3], ⟨some 3, [⟨1, 7, secs 1035⟩]⟩) := by decide
  rw [hrun] at hstate
  simp only [Option.map_some, Option.some.injEq, Prod.mk.injEq] at hstate
  obtain ⟨hlog, hfence⟩ := hstate
  refine ⟨w, hrun, ?_⟩
  refine proved_snapshot_holds_every_row (secs 1990) 0 3 rowThenProbe [] w w hrun rfl 0 2
    ⟨1, 7, secs 1035⟩ ?_ 0 _ ?_ ⟨some 5, secs 1031⟩ (List.mem_singleton.mpr rfl) rfl (by decide)
  · rw [hlog, hfence]
    decide
  · rw [hlog]
    rfl

end Vingilot.Fence
