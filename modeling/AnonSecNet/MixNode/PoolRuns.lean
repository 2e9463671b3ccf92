import AnonSecNet.MixNode.PoolMixing
import Mathlib.Algebra.Order.BigOperators.Group.Finset

/-! The pool over a whole run: relaying threads add to it while the flush thread empties it, again
and again. No entry is lost on the way and none is handled twice, and a session's entries stay in
order from one flush to the next. -/
namespace AnonSecNet.MixNode
open BucketPass

/-- What became of an entry that a flush took out of the pool. -/
inductive Outcome where
  | sent
  | unreachable
  | noWorker
deriving DecidableEq

def outcomeOf (connected : Bool) : Outcome := if connected then .sent else .unreachable

/-- A batch that is being handed out, and the workers that were started for it. -/
structure Flush where
  n : Nat
  buckets : Buckets n
  started : Fin (nWorkers n) → Bool
  workers : Workers n

/-- The buckets for which there is no worker. -/
def Flush.dropped (f : Flush) : List PoolEntry :=
  (List.finRange (nWorkers f.n)).flatMap fun w => if f.started w then [] else f.buckets.range w

/-- What the workers still have before them. -/
def Flush.left (f : Flush) : List PoolEntry :=
  (List.finRange (nWorkers f.n)).flatMap fun w =>
    if f.started w then
      cellRange f.buckets.cells (f.workers.i w) (f.buckets.stop w - f.workers.i w)
    else []

def Flush.outcomes (f : Flush) : List (PoolEntry × Outcome) :=
  f.dropped.map (fun e => (e, .noWorker)) ++
    f.workers.handled.map fun e => (e.1, outcomeOf e.2)

def Flush.Done (f : Flush) : Prop := ∀ w, f.started w → f.workers.i w = f.buckets.stop w

instance (f : Flush) : Decidable f.Done := inferInstanceAs (Decidable (∀ _, _ → _))

/-- `accepted` and `settled` record what went into the pool and what became of the batches that
are through; `flush` is the batch between a snapshot and the last join. -/
structure PoolNode where
  pool : Pool
  flush : Option Flush
  accepted : List PoolEntry
  settled : List (PoolEntry × Outcome)

def PoolNode.initial (cells : Fin poolMixMaxBatch → PoolEntry) : PoolNode where
  pool := ⟨cells, 0, Nat.zero_le _⟩
  flush := none
  accepted := []
  settled := []

inductive PoolAct where
  | enqueue (pkt : WirePacket) (nextPort : UInt16) (sessIdx : Int32)
  /-- The flush thread wakes up. The first and the third argument are what is left in its static
  arrays, `starts` says for which workers there is memory and a thread. -/
  | wake (nextLink : Fin poolMixMaxBatch → Option (Fin poolMixMaxBatch)) (draws : Nat → UInt32)
    (stale : Nat → PoolEntry) (starts : Nat → Bool)
  | work (w : Nat) (connects : Nat → Bool)
  | join

/-- The snapshot leaves no entry in the pool. -/
def Pool.cleared (pool : Pool) : Pool := ⟨pool.cells, 0, Nat.zero_le _⟩

def startFlush (shuffled : List PoolEntry) (stale : Nat → PoolEntry) (starts : Nat → Bool) :
    Flush :=
  let b := bucketPass shuffled.length stale shuffled
  ⟨shuffled.length, b, fun w => starts w && decide (0 < b.count w), Workers.initial b⟩

/-- A worker handles its next entry. -/
def Flush.work (f : Flush) (w : Nat) (connects : Nat → Bool) : Flush :=
  if h : w < nWorkers f.n then
    { f with workers := poolMixWorker f.buckets f.started f.workers (⟨w, h⟩, connects) }
  else f

def poolStep (s : PoolNode) : PoolAct → PoolNode
  | .enqueue pkt nextPort sessIdx =>
    match poolMixEnqueue s.pool ⟨pkt, nextPort, sessIdx⟩ with
    | none => s
    | some pool => { s with pool, accepted := s.accepted ++ [⟨pkt, nextPort, sessIdx⟩] }
  | .wake nextLink draws stale starts =>
    match s.flush with
    | some _ => s
    | none =>
      if s.pool.count = 0 then s
      else
        match poolMixShuffleStratified nextLink draws s.pool.count s.pool with
        | none => s
        | some shuffled =>
          { s with pool := s.pool.cleared, flush := some (startFlush shuffled stale starts) }
  | .work w connects => { s with flush := s.flush.map (·.work w connects) }
  | .join =>
    match s.flush with
    | none => s
    | some f => if f.Done then { s with flush := none, settled := s.settled ++ f.outcomes } else s

def PoolNode.outcomes (s : PoolNode) : List (PoolEntry × Outcome) :=
  s.settled ++ (s.flush.map Flush.outcomes).getD []

/-- The entries that were taken in and are still in memory. -/
def PoolNode.waiting (s : PoolNode) : List PoolEntry :=
  (s.flush.map Flush.left).getD [] ++ s.pool.entries

/-- The entries that went out, in that order. -/
def PoolNode.sent (s : PoolNode) : List PoolEntry :=
  (s.outcomes.filter fun e => decide (e.2 = .sent)).map Prod.fst

/-! Lists cut up by session. -/

@[simp] theorem ofSession_nil (sessIdx : Int32) : ofSession sessIdx [] = [] := rfl

theorem ofSession_append (sessIdx : Int32) (xs ys : List PoolEntry) :
    ofSession sessIdx (xs ++ ys) = ofSession sessIdx xs ++ ofSession sessIdx ys :=
  List.filter_append ..

/-- The sessions' parts tell how often each entry is there. -/
theorem perm_of_ofSession {xs ys : List PoolEntry}
    (h : ∀ sessIdx, ofSession sessIdx xs = ofSession sessIdx ys) : xs.Perm ys := by
  classical
  refine List.perm_iff_count.mpr fun e => ?_
  have hown : ∀ zs : List PoolEntry, (ofSession e.sessIdx zs).count e = zs.count e := fun zs =>
    List.count_filter (decide_eq_true rfl)
  rw [← hown xs, ← hown ys, h]

/-- Of what is put together from the workers' lists, a session has what is in the list of its own
worker. -/
theorem ofSession_flatMap {n : Nat} (sessIdx : Int32) (part : Fin (nWorkers n) → List PoolEntry)
    (hpart : ∀ w, ∀ e ∈ part w, workerOf n e.sessIdx = w) :
    ofSession sessIdx ((List.finRange (nWorkers n)).flatMap part)
      = ofSession sessIdx (part (workerOf n sessIdx)) := by
  have hother : ∀ w, w ≠ workerOf n sessIdx → ofSession sessIdx (part w) = [] := by
    intro w hw
    refine List.filter_eq_nil_iff.mpr fun e he hsess => hw ?_
    rw [← of_decide_eq_true hsess, hpart w e he]
  have hlist : ∀ ws : List (Fin (nWorkers n)), ws.Nodup →
      ofSession sessIdx (ws.flatMap part)
        = if workerOf n sessIdx ∈ ws then ofSession sessIdx (part (workerOf n sessIdx))
          else [] := by
    intro ws hws
    induction ws with
    | nil => rfl
    | cons w ws ih =>
      obtain ⟨hw, hws⟩ := List.nodup_cons.mp hws
      rw [List.flatMap_cons, ofSession_append, ih hws]
      by_cases heq : w = workerOf n sessIdx
      · rw [← heq, if_neg hw, List.append_nil, if_pos List.mem_cons_self]
      · rw [hother w heq, List.nil_append]
        simp [Ne.symm heq]
  rw [hlist _ (List.nodup_finRange _), if_pos (List.mem_finRange _)]

/-! One flush. -/

/-- The flush hands out `entries`; a worker that was not started does nothing. -/
structure Flush.Of (f : Flush) (entries : List PoolEntry) : Prop where
  session : ∀ sessIdx w, ofSession sessIdx (f.buckets.range w)
    = if w = workerOf f.n sessIdx then ofSession sessIdx entries else []
  order : f.workers.InOrder f.buckets
  idle : ∀ w, f.started w = false → f.workers.i w = f.buckets.start w

theorem Flush.Of.worker {f : Flush} {entries : List PoolEntry} (h : f.Of entries)
    (w : Fin (nWorkers f.n)) : ∀ e ∈ f.buckets.range w, workerOf f.n e.sessIdx = w := by
  intro e he
  by_contra hw
  have hnone := h.session e.sessIdx w
  rw [if_neg (Ne.symm hw)] at hnone
  exact List.filter_eq_nil_iff.mp hnone e he (decide_eq_true rfl)

theorem startFlush_of {shuffled entries : List PoolEntry}
    (hsession : ∀ sessIdx, ofSession sessIdx shuffled = ofSession sessIdx entries)
    (stale : Nat → PoolEntry) (starts : Nat → Bool) :
    (startFlush shuffled stale starts).Of entries where
  session sessIdx w := by
    rw [← hsession]
    exact (bucketPass_holds stale shuffled).session sessIdx w
  order := Workers.InOrder.initial _
  idle _ _ := rfl

theorem poolMixWorker_of_idle {n : Nat} {b : Buckets n} {started : Fin (nWorkers n) → Bool}
    {v : Fin (nWorkers n)} (hv : started v = false) (s : Workers n)
    (a : Fin (nWorkers n) × (Nat → Bool)) : (poolMixWorker b started s a).i v = s.i v := by
  obtain ⟨w, connects⟩ := a
  unfold poolMixWorker
  dsimp only
  split
  · rename_i hgo
    refine Function.update_of_ne (fun heq => ?_) _ _
    rw [← heq, hv] at hgo
    cases hgo.1
  · rfl

theorem Flush.Of.work {f : Flush} {entries : List PoolEntry} (h : f.Of entries) (w : Nat)
    (connects : Nat → Bool) : (f.work w connects).Of entries := by
  unfold Flush.work
  split
  · rename_i hw
    exact {
      session := h.session
      order := h.order.step h.worker f.started (⟨w, hw⟩, connects)
      idle := fun v hv => (poolMixWorker_of_idle hv f.workers _).trans (h.idle v hv) }
  · exact h

/-- A worker's range is what it handled and what it has before it. -/
theorem Workers.InOrder.range_eq {n : Nat} {b : Buckets n} {s : Workers n} (h : s.InOrder b)
    (w : Fin (nWorkers n)) :
    cellRange b.cells (b.start w) (s.i w - b.start w)
      ++ cellRange b.cells (s.i w) (b.stop w - s.i w) = b.range w := by
  obtain ⟨hlo, hhi⟩ := h.within w
  have hsplit := cellRange_add b.cells (b.start w) (s.i w - b.start w) (b.stop w - s.i w)
  rw [Nat.add_sub_cancel' hlo] at hsplit
  rw [← hsplit, Buckets.range]
  congr 1
  unfold Buckets.stop at hhi ⊢
  omega

theorem Flush.Of.ofSession_handled {f : Flush} {entries : List PoolEntry} (h : f.Of entries)
    (sessIdx : Int32) :
    ofSession sessIdx (f.workers.handled.map Prod.fst)
      = ofSession sessIdx (cellRange f.buckets.cells (f.buckets.start (workerOf f.n sessIdx))
          (f.workers.i (workerOf f.n sessIdx) - f.buckets.start (workerOf f.n sessIdx))) := by
  rw [← h.order.front, ofSession, ofSession, List.filter_filter]
  refine List.filter_congr fun e _ => ?_
  by_cases he : e.sessIdx = sessIdx <;> simp [he]

theorem Flush.outcomes_fst (f : Flush) :
    f.outcomes.map Prod.fst = f.dropped ++ f.workers.handled.map Prod.fst := by
  simp [Flush.outcomes, List.map_map, Function.comp_def]

/-- At every moment of a flush, a session's entries are those that are through, then those
that its worker still has. -/
theorem Flush.Of.ofSession_eq {f : Flush} {entries : List PoolEntry} (h : f.Of entries)
    (sessIdx : Int32) :
    ofSession sessIdx (f.outcomes.map Prod.fst) ++ ofSession sessIdx f.left
      = ofSession sessIdx entries := by
  have hrange : ∀ w, ∀ e ∈ cellRange f.buckets.cells (f.workers.i w)
      (f.buckets.stop w - f.workers.i w), workerOf f.n e.sessIdx = w := by
    intro w e he
    refine h.worker w e ?_
    rw [← h.order.range_eq w]
    exact List.mem_append_right _ he
  have hleft := ofSession_flatMap (n := f.n) sessIdx (fun w =>
    if f.started w then
      cellRange f.buckets.cells (f.workers.i w) (f.buckets.stop w - f.workers.i w)
    else []) (by
      intro w e he
      split at he
      · exact hrange w e he
      · cases he)
  have hdropped := ofSession_flatMap (n := f.n) sessIdx (fun w =>
    if f.started w then [] else f.buckets.range w) (by
      intro w e he
      split at he
      · cases he
      · exact h.worker w e he)
  have hown := h.session sessIdx (workerOf f.n sessIdx)
  rw [if_pos rfl] at hown
  rw [Flush.outcomes_fst, ofSession_append, h.ofSession_handled, Flush.left, hleft, Flush.dropped,
    hdropped, ← hown, ← h.order.range_eq (workerOf f.n sessIdx)]
  cases hstarted : f.started (workerOf f.n sessIdx) with
  | true => simp [ofSession_append]
  | false => simp [h.idle _ hstarted, cellRange]

theorem Flush.left_length_le {f : Flush} {entries : List PoolEntry} (h : f.Of entries) :
    f.left.length ≤ entries.length := by
  have hperm : (f.outcomes.map Prod.fst ++ f.left).Perm entries :=
    perm_of_ofSession fun sessIdx => by rw [ofSession_append, h.ofSession_eq]
  rw [← hperm.length_eq, List.length_append]
  exact Nat.le_add_left _ _

theorem Flush.left_of_done {f : Flush} (h : f.Done) : f.left = [] := by
  refine List.flatMap_eq_nil_iff.mpr fun w _ => ?_
  split
  · rename_i hw
    rw [h w hw, Nat.sub_self]
    rfl
  · rfl

/-! A whole run. -/

/-- What a session had accepted is what is settled, then what is being flushed, then what is in
the pool. -/
def PoolNode.Kept (s : PoolNode) : Prop :=
  ∃ batch : List PoolEntry, batch.length ≤ poolMixMaxBatch ∧
    (match s.flush with
      | none => batch = []
      | some f => f.Of batch) ∧
    ∀ sessIdx, ofSession sessIdx s.accepted
      = ofSession sessIdx (s.settled.map Prod.fst) ++ ofSession sessIdx batch
        ++ ofSession sessIdx s.pool.entries

theorem Pool.entries_length (pool : Pool) : pool.entries.length = pool.count := by
  rw [Pool.entries, List.length_map, List.length_finRange]

theorem Pool.cleared_entries (pool : Pool) : pool.cleared.entries = [] := rfl

theorem PoolNode.Kept.initial (cells : Fin poolMixMaxBatch → PoolEntry) :
    (PoolNode.initial cells).Kept :=
  ⟨[], Nat.zero_le _, rfl, fun _ => rfl⟩

theorem PoolNode.Kept.enqueue {s : PoolNode} (h : s.Kept) (pkt : WirePacket) (nextPort : UInt16)
    (sessIdx : Int32) : (poolStep s (.enqueue pkt nextPort sessIdx)).Kept := by
  obtain ⟨batch, hlen, hflush, hsession⟩ := h
  unfold poolStep
  dsimp only
  cases hpool : poolMixEnqueue s.pool ⟨pkt, nextPort, sessIdx⟩ with
  | none => exact ⟨batch, hlen, hflush, hsession⟩
  | some pool =>
    refine ⟨batch, hlen, hflush, fun sess => ?_⟩
    dsimp only
    rw [poolMixEnqueue_entries hpool, ofSession_append, ofSession_append, hsession]
    simp only [List.append_assoc]

theorem PoolNode.Kept.wake {s : PoolNode} (h : s.Kept)
    (nextLink : Fin poolMixMaxBatch → Option (Fin poolMixMaxBatch)) (draws : Nat → UInt32)
    (stale : Nat → PoolEntry) (starts : Nat → Bool) :
    (poolStep s (.wake nextLink draws stale starts)).Kept := by
  have hkept := h
  obtain ⟨batch, hlen, hflush, hsession⟩ := h
  unfold poolStep
  cases hf : s.flush with
  | some f => exact hkept
  | none =>
    rw [hf] at hflush
    dsimp only at hflush ⊢
    split
    · exact hkept
    · obtain ⟨shuffled, hshuffled, -, horder⟩ :=
        poolMixShuffleStratified_spec nextLink draws s.pool le_rfl
      rw [hshuffled]
      refine ⟨s.pool.entries, ?_, startFlush_of horder stale starts, fun sess => ?_⟩
      · rw [Pool.entries_length]
        exact s.pool.count_le
      · rw [hsession, hflush]
        simp [Pool.cleared_entries]

theorem PoolNode.Kept.work {s : PoolNode} (h : s.Kept) (w : Nat) (connects : Nat → Bool) :
    (poolStep s (.work w connects)).Kept := by
  obtain ⟨batch, hlen, hflush, hsession⟩ := h
  refine ⟨batch, hlen, ?_, hsession⟩
  unfold poolStep
  cases hf : s.flush with
  | none =>
    rw [hf] at hflush
    exact hflush
  | some f =>
    rw [hf] at hflush
    exact Flush.Of.work hflush w connects

theorem PoolNode.Kept.join {s : PoolNode} (h : s.Kept) : (poolStep s .join).Kept := by
  have hkept := h
  obtain ⟨batch, hlen, hflush, hsession⟩ := h
  unfold poolStep
  cases hf : s.flush with
  | none => exact hkept
  | some f =>
    rw [hf] at hflush
    dsimp only
    split
    · rename_i hdone
      refine ⟨[], Nat.zero_le _, rfl, fun sess => ?_⟩
      have hall := hflush.ofSession_eq sess
      rw [Flush.left_of_done hdone, ofSession_nil, List.append_nil] at hall
      rw [hsession, List.map_append, ofSession_append, hall, ofSession_nil, List.append_nil]
    · exact hkept

theorem PoolNode.Kept.step {s : PoolNode} (h : s.Kept) (a : PoolAct) : (poolStep s a).Kept := by
  cases a with
  | enqueue pkt nextPort sessIdx => exact h.enqueue pkt nextPort sessIdx
  | wake nextLink draws stale starts => exact h.wake nextLink draws stale starts
  | work w connects => exact h.work w connects
  | join => exact h.join

theorem PoolNode.Kept.ofSession_eq {s : PoolNode} (h : s.Kept) (sessIdx : Int32) :
    ofSession sessIdx s.accepted
      = ofSession sessIdx (s.outcomes.map Prod.fst) ++ ofSession sessIdx s.waiting := by
  obtain ⟨batch, -, hflush, hsession⟩ := h
  rw [hsession, PoolNode.outcomes, PoolNode.waiting]
  cases hf : s.flush with
  | none =>
    rw [hf] at hflush
    simp [hflush]
  | some f =>
    rw [hf] at hflush
    have hall := Flush.Of.ofSession_eq hflush sessIdx
    simp only [Option.map_some, Option.getD_some, List.map_append, ofSession_append, ← hall,
      List.append_assoc]

theorem PoolNode.Kept.waiting_length {s : PoolNode} (h : s.Kept) :
    s.waiting.length ≤ 2 * poolMixMaxBatch := by
  obtain ⟨batch, hlen, hflush, -⟩ := h
  have hpool := s.pool.count_le
  rw [PoolNode.waiting, List.length_append, Pool.entries_length]
  cases hf : s.flush with
  | none =>
    rw [Option.map_none, Option.getD_none, List.length_nil]
    omega
  | some f =>
    rw [hf] at hflush
    have hle := Flush.left_length_le hflush
    rw [Option.map_some, Option.getD_some]
    omega

/-! Getting through. -/

theorem Flush.left_length (f : Flush) :
    f.left.length
      = ∑ w, if f.started w then f.buckets.stop w - f.workers.i w else 0 := by
  rw [Flush.left, List.length_flatMap, Fin.sum_univ_def]
  refine congrArg List.sum (List.map_congr_left fun w _ => ?_)
  split
  · rw [cellRange, List.length_map, List.length_range]
  · rfl

theorem Flush.work_left_lt {f : Flush} {w : Fin (nWorkers f.n)} (hstarted : f.started w = true)
    (hleft : f.workers.i w < f.buckets.stop w) (connects : Nat → Bool) :
    (f.work w connects).left.length < f.left.length := by
  have hwork : f.work w connects = { f with workers :=
      ⟨Function.update f.workers.i w (f.workers.i w + 1), f.workers.handled ++
        [(f.buckets.cells (f.workers.i w),
          (List.range poolMixConnectRetries).any connects)]⟩ } := by
    rw [Flush.work, dif_pos w.isLt, poolMixWorker, if_pos ⟨hstarted, hleft⟩]
  rw [hwork, Flush.left_length, Flush.left_length]
  refine Finset.sum_lt_sum (fun v _ => ?_) ⟨w, Finset.mem_univ w, ?_⟩
  · dsimp only
    by_cases hv : v = w
    · rw [hv, Function.update_self]
      split <;> omega
    · rw [Function.update_of_ne hv]
  · dsimp only
    rw [Function.update_self, if_pos hstarted, if_pos hstarted]
    omega

theorem Flush.Of.exists_work {f : Flush} {entries : List PoolEntry} (h : f.Of entries)
    (hdone : ¬ f.Done) : ∃ w, f.started w = true ∧ f.workers.i w < f.buckets.stop w := by
  unfold Flush.Done at hdone
  push Not at hdone
  obtain ⟨w, hstarted, hne⟩ := hdone
  exact ⟨w, hstarted, lt_of_le_of_ne (h.order.within w).2 hne⟩

def PoolAct.isEnqueue : PoolAct → Bool
  | .enqueue .. => true
  | _ => false

/-- What is left to do counts more while it is in the pool. -/
def PoolNode.rank (s : PoolNode) : Nat :=
  3 * s.pool.count + (s.flush.map fun f => 1 + f.left.length).getD 0

theorem PoolNode.rank_eq_zero {s : PoolNode} (h : s.rank = 0) : s.waiting = [] := by
  unfold PoolNode.rank at h
  have hpool : s.pool.entries = [] := by
    rw [← List.length_eq_zero_iff, Pool.entries_length]
    omega
  cases hf : s.flush with
  | none => rw [PoolNode.waiting, hf, hpool, Option.map_none, Option.getD_none, List.nil_append]
  | some f =>
    rw [hf, Option.map_some, Option.getD_some] at h
    omega

theorem PoolNode.Kept.exists_progress {s : PoolNode} (h : s.Kept) (hrank : 0 < s.rank) :
    ∃ a : PoolAct, a.isEnqueue = false ∧ (poolStep s a).accepted = s.accepted ∧
      (poolStep s a).rank < s.rank := by
  obtain ⟨batch, -, hflush, -⟩ := h
  cases hf : s.flush with
  | none =>
    -- the snapshot leaves at most as much to do as there was in the pool
    have hcount : s.pool.count ≠ 0 := by
      intro hzero
      rw [PoolNode.rank, hf, hzero] at hrank
      exact Nat.lt_irrefl 0 hrank
    obtain ⟨shuffled, hshuffled, hperm, horder⟩ :=
      poolMixShuffleStratified_spec (fun _ => none) (fun _ => 0) s.pool le_rfl
    let stale : Nat → PoolEntry := fun _ =>
      s.pool.cells (s.pool.cell ⟨0, Nat.pos_of_ne_zero hcount⟩)
    have hstep : poolStep s (.wake (fun _ => none) (fun _ => 0) stale fun _ => true)
        = { s with
            pool := s.pool.cleared, flush := some (startFlush shuffled stale fun _ => true) } := by
      simp only [poolStep, hf, if_neg hcount, hshuffled]
    refine ⟨.wake (fun _ => none) (fun _ => 0) stale fun _ => true, rfl, by rw [hstep], ?_⟩
    have hleft := Flush.left_length_le (startFlush_of horder stale fun _ => true)
    rw [Pool.entries_length] at hleft
    rw [hstep, PoolNode.rank, PoolNode.rank, hf]
    change 3 * 0 + (1 + _) < 3 * s.pool.count + 0
    omega
  | some f =>
    rw [hf] at hflush
    by_cases hdone : f.Done
    · refine ⟨.join, rfl, ?_, ?_⟩
      · simp only [poolStep, hf, if_pos hdone]
      · simp only [PoolNode.rank, poolStep, hf, if_pos hdone, Option.map_none, Option.getD_none,
          Option.map_some, Option.getD_some]
        omega
    · obtain ⟨w, hstarted, hleft⟩ := Flush.Of.exists_work hflush hdone
      refine ⟨.work w fun _ => true, rfl, rfl, ?_⟩
      have hlt := Flush.work_left_lt hstarted hleft fun _ => true
      simp only [PoolNode.rank, poolStep, hf, Option.map_some, Option.getD_some]
      omega

/-- The flush thread alone gets everything out of memory. -/
theorem PoolNode.Kept.exists_drain {s : PoolNode} (h : s.Kept) :
    ∃ more : List PoolAct, (∀ a ∈ more, a.isEnqueue = false) ∧
      (Machine.run poolStep more s).accepted = s.accepted ∧
      (Machine.run poolStep more s).waiting = [] := by
  induction hn : s.rank using Nat.strong_induction_on generalizing s with
  | _ n ih =>
    by_cases hzero : s.rank = 0
    · exact ⟨[], fun _ ha => absurd ha List.not_mem_nil, rfl, PoolNode.rank_eq_zero hzero⟩
    · obtain ⟨a, ha, haccepted, hlt⟩ := h.exists_progress (Nat.pos_of_ne_zero hzero)
      obtain ⟨more, hmore, hrest, hwaiting⟩ := ih _ (hn ▸ hlt) (h.step a) rfl
      exact ⟨a :: more, List.forall_mem_cons.mpr ⟨ha, hmore⟩, hrest.trans haccepted, hwaiting⟩

/-- In every run each accepted entry is either through, once, or waiting; what goes out of a
session, over all flushes, is in the order in which it was accepted; and from everywhere the flush
thread can get to the end of what is waiting, of which there is never more than two pools full. -/
theorem pool_mix_run (cells : Fin poolMixMaxBatch → PoolEntry) (acts : List PoolAct) :
    let s := Machine.run poolStep acts (PoolNode.initial cells)
    s.accepted.Perm (s.outcomes.map Prod.fst ++ s.waiting) ∧
      (∀ sessIdx, ofSession sessIdx s.accepted
        = ofSession sessIdx (s.outcomes.map Prod.fst) ++ ofSession sessIdx s.waiting) ∧
      (∀ sessIdx, (ofSession sessIdx s.sent).Sublist (ofSession sessIdx s.accepted)) ∧
      s.waiting.length ≤ 2 * poolMixMaxBatch ∧
      ∃ more : List PoolAct, (∀ a ∈ more, a.isEnqueue = false) ∧
        let t := Machine.run poolStep more s
        t.accepted = s.accepted ∧ t.waiting = [] ∧
        ∀ sessIdx, ofSession sessIdx (t.outcomes.map Prod.fst) = ofSession sessIdx s.accepted := by
  have hkept : (Machine.run poolStep acts (PoolNode.initial cells)).Kept :=
    Machine.run_keeps _ _ (fun s a (h : s.Kept) => h.step a) acts (PoolNode.Kept.initial cells)
  dsimp only
  generalize Machine.run poolStep acts (PoolNode.initial cells) = s at hkept
  refine ⟨?_, hkept.ofSession_eq, fun sessIdx => ?_, hkept.waiting_length, ?_⟩
  · exact perm_of_ofSession fun sessIdx => by rw [ofSession_append, hkept.ofSession_eq]
  · rw [hkept.ofSession_eq]
    exact ((List.filter_sublist.map Prod.fst).filter _).trans (List.sublist_append_left _ _)
  · obtain ⟨more, hmore, haccepted, hwaiting⟩ := hkept.exists_drain
    refine ⟨more, hmore, haccepted, hwaiting, fun sessIdx => ?_⟩
    have hend := (Machine.run_keeps _ _ (fun s a (h : s.Kept) => h.step a) more
      hkept).ofSession_eq sessIdx
    rw [hwaiting, ofSession_nil, List.append_nil, haccepted] at hend
    exact hend.symm

end AnonSecNet.MixNode
