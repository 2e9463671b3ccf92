import AnonSecNet.Config
import AnonSecNet.Foundation.BucketPass
import AnonSecNet.Foundation.LinkedQueues
import AnonSecNet.Foundation.Machine

/-! Pool mixing: the packets of a flush window are interleaved at random and sent by several
workers, but those of one session stay in their order. -/
namespace AnonSecNet.MixNode
open BucketPass

def poolMixMaxBatch : Nat := 8192
def poolMixMaxWorkers : Nat := 64
def poolMixConnectRetries : Nat := 3

structure PoolEntry where
  pkt : WirePacket
  nextPort : UInt16
  sessIdx : Int32

/-- An array of which the first `count` entries are in use. -/
structure Pool where
  cells : Fin poolMixMaxBatch → PoolEntry
  count : Nat
  count_le : count ≤ poolMixMaxBatch

def Pool.cell (pool : Pool) (i : Fin pool.count) : Fin poolMixMaxBatch := i.castLE pool.count_le

def Pool.entries (pool : Pool) : List PoolEntry :=
  (List.finRange pool.count).map fun i => pool.cells (pool.cell i)

/-- No pool is returned when it is full. -/
def poolMixEnqueue (pool : Pool) (entry : PoolEntry) : Option Pool :=
  if h : pool.count < poolMixMaxBatch then
    some ⟨Function.update pool.cells ⟨pool.count, h⟩ entry, pool.count + 1, h⟩
  else none

/-- The index under which the entries of a session are queued. -/
def poolMixStratum (sessIdx : Int32) : Fin maxSessions :=
  if h : sessIdx.toInt < 0 ∨ maxSessions ≤ sessIdx.toInt then 0
  else ⟨sessIdx.toInt.toNat, by omega⟩

/-- No rounding: the product takes at most 43 of the 53 bits of a `double`. -/
def poolMixPick (draw : UInt32) (nActive : Nat) : Nat :=
  let pick := draw.toNat * nActive / 2 ^ 32
  if nActive ≤ pick then nActive - 1 else pick

/-- `nextLink` is what earlier calls left in the array of links. -/
def poolMixShuffleStratified (nextLink : Fin poolMixMaxBatch → Option (Fin poolMixMaxBatch))
    (draws : Nat → UInt32) (fuel : Nat) (batch : Pool) : Option (List PoolEntry) :=
  (LinkedQueues.shuffle maxSessions (fun i => poolMixStratum (batch.cells i).sessIdx) nextLink
    (fun n nActive => poolMixPick (draws n) nActive) fuel
    ((List.finRange batch.count).map batch.cell)).map fun out => out.map batch.cells

def nWorkers (n : Nat) : Nat := max 1 (min n poolMixMaxWorkers)

theorem nWorkers_pos (n : Nat) : 0 < nWorkers n := Nat.lt_of_lt_of_le Nat.one_pos (le_max_left _ _)

def workerOf (n : Nat) (sessIdx : Int32) : Fin (nWorkers n) :=
  ⟨sessIdx.toUInt32.toNat % nWorkers n, Nat.mod_lt _ (nWorkers_pos n)⟩

/-- The part of the bucketed entries each worker is given. -/
structure Buckets (n : Nat) where
  cells : Nat → PoolEntry
  start : Fin (nWorkers n) → Nat
  count : Fin (nWorkers n) → Nat

def Buckets.stop {n : Nat} (b : Buckets n) (w : Fin (nWorkers n)) : Nat := b.start w + b.count w

def Buckets.range {n : Nat} (b : Buckets n) (w : Fin (nWorkers n)) : List PoolEntry :=
  cellRange b.cells (b.start w) (b.count w)

/-- The bucket pass of `pool_mix_flush_thread`. -/
def bucketPass (n : Nat) (stale : Nat → PoolEntry) (shuffled : List PoolEntry) : Buckets n where
  cells := bucketed (fun e => workerOf n e.sessIdx) stale shuffled
  start := bucketStart (fun e => workerOf n e.sessIdx) shuffled
  count := counts (fun e => workerOf n e.sessIdx) shuffled

/-- Where each worker is, and the entries they handled, each with whether it was sent. -/
structure Workers (n : Nat) where
  i : Fin (nWorkers n) → Nat
  handled : List (PoolEntry × Bool)

def Workers.initial {n : Nat} (b : Buckets n) : Workers n := ⟨b.start, []⟩

/-- One round of `pool_mix_worker`: the entry goes out with the first try that connects. -/
def poolMixWorker {n : Nat} (b : Buckets n) (started : Fin (nWorkers n) → Bool) (s : Workers n) :
    Fin (nWorkers n) × (Nat → Bool) → Workers n
  | (w, connects) =>
    if started w ∧ s.i w < b.stop w then
      { i := Function.update s.i w (s.i w + 1)
        handled := s.handled ++
          [(b.cells (s.i w), (List.range poolMixConnectRetries).any connects)] }
    else s

/-- The entries that were sent, in that order. -/
def Workers.sent {n : Nat} (s : Workers n) : List PoolEntry :=
  (s.handled.filter Prod.snd).map Prod.fst

def ofSession (sessIdx : Int32) (entries : List PoolEntry) : List PoolEntry :=
  entries.filter fun e => decide (e.sessIdx = sessIdx)

/-! The shuffle. -/

theorem poolMixPick_lt (draw : UInt32) {nActive : Nat} (h : 0 < nActive) :
    poolMixPick draw nActive < nActive := by
  unfold poolMixPick
  dsimp only
  split <;> omega

theorem Pool.cells_nodup (pool : Pool) : ((List.finRange pool.count).map pool.cell).Nodup :=
  (List.nodup_finRange _).map (Fin.castLE_injective pool.count_le)

theorem Pool.entries_eq (pool : Pool) :
    pool.entries = ((List.finRange pool.count).map pool.cell).map pool.cells := by
  rw [List.map_map]
  rfl

/-- The entries are in the order in which they arrived. -/
theorem poolMixEnqueue_entries {pool pool' : Pool} {entry : PoolEntry}
    (h : poolMixEnqueue pool entry = some pool') : pool'.entries = pool.entries ++ [entry] := by
  unfold poolMixEnqueue at h
  split at h
  · rename_i hroom
    obtain rfl := (Option.some.inj h).symm
    unfold Pool.entries
    dsimp only
    rw [List.finRange_succ_last, List.map_append, List.map_map]
    refine congrArg₂ (· ++ ·) (List.map_congr_left fun i _ => ?_) ?_
    · exact Function.update_of_ne (fun heq => i.isLt.ne (congrArg Fin.val heq)) _ _
    · exact congrArg (fun e => [e]) (Function.update_self _ _ _)
  · cases h

theorem ofSession_map (cells : Fin poolMixMaxBatch → PoolEntry) (sessIdx : Int32)
    (is : List (Fin poolMixMaxBatch)) :
    ofSession sessIdx (is.map cells)
      = (is.filter fun i => decide ((cells i).sessIdx = sessIdx)).map cells := by
  rw [ofSession, List.filter_map]
  rfl

/-- What one session has in the list is the same part of one queue. -/
theorem filter_queue (cells : Fin poolMixMaxBatch → PoolEntry) (sessIdx : Int32)
    (is : List (Fin poolMixMaxBatch)) :
    (LinkedQueues.queue (fun i => poolMixStratum (cells i).sessIdx) is
        (poolMixStratum sessIdx)).filter (fun i => decide ((cells i).sessIdx = sessIdx))
      = is.filter fun i => decide ((cells i).sessIdx = sessIdx) := by
  rw [LinkedQueues.queue, List.filter_filter]
  refine List.filter_congr fun i _ => ?_
  by_cases h : (cells i).sessIdx = sessIdx <;> simp [h]

theorem poolMixShuffleStratified_spec
    (nextLink : Fin poolMixMaxBatch → Option (Fin poolMixMaxBatch)) (draws : Nat → UInt32)
    (batch : Pool) {fuel : Nat} (hfuel : batch.count ≤ fuel) :
    ∃ shuffled, poolMixShuffleStratified nextLink draws fuel batch = some shuffled ∧
      shuffled.Perm batch.entries ∧
      ∀ sessIdx, ofSession sessIdx shuffled = ofSession sessIdx batch.entries := by
  have hlen : ((List.finRange batch.count).map batch.cell).length ≤ fuel := by
    rwa [List.length_map, List.length_finRange]
  obtain ⟨out, hout, hperm, hqueues⟩ := LinkedQueues.shuffle_spec
    (Fintype.card_fin maxSessions).le (fun i => poolMixStratum (batch.cells i).sessIdx) nextLink
    (fun n _ h => poolMixPick_lt (draws n) h) batch.cells_nodup hlen
  refine ⟨out.map batch.cells, by rw [poolMixShuffleStratified, hout, Option.map_some], ?_, ?_⟩
  · rw [Pool.entries_eq]
    exact hperm.map batch.cells
  · intro sessIdx
    rw [Pool.entries_eq, ofSession_map, ofSession_map, ← filter_queue, hqueues, filter_queue]

/-! The buckets. -/

theorem workerOf_range {n : Nat} (stale : Nat → PoolEntry) (shuffled : List PoolEntry)
    (w : Fin (nWorkers n)) (e : PoolEntry) :
    e ∈ (bucketPass n stale shuffled).range w ↔ e ∈ shuffled ∧ workerOf n e.sessIdx = w := by
  rw [Buckets.range, bucketPass, bucketed_range, bucket]
  simp

/-- All entries of a session are in one range, in their order. -/
theorem ofSession_range {n : Nat} (stale : Nat → PoolEntry) (shuffled : List PoolEntry)
    (sessIdx : Int32) :
    ofSession sessIdx ((bucketPass n stale shuffled).range (workerOf n sessIdx))
      = ofSession sessIdx shuffled := by
  rw [Buckets.range, bucketPass, bucketed_range, ofSession, bucket, List.filter_filter]
  refine List.filter_congr fun e _ => ?_
  by_cases h : e.sessIdx = sessIdx <;> simp [h]

/-- What each worker handled is the front of its range. -/
structure Workers.InOrder {n : Nat} (b : Buckets n) (s : Workers n) : Prop where
  within : ∀ w, b.start w ≤ s.i w ∧ s.i w ≤ b.stop w
  front : ∀ w, (s.handled.map Prod.fst).filter (fun e => decide (workerOf n e.sessIdx = w))
    = cellRange b.cells (b.start w) (s.i w - b.start w)

theorem Workers.InOrder.initial {n : Nat} (b : Buckets n) : (Workers.initial b).InOrder b where
  within _ := ⟨le_rfl, Nat.le_add_right _ _⟩
  front w := by simp [Workers.initial, cellRange]

theorem Workers.InOrder.step {n : Nat} {b : Buckets n}
    (hb : ∀ w, ∀ e ∈ b.range w, workerOf n e.sessIdx = w) {s : Workers n} (h : s.InOrder b)
    (started : Fin (nWorkers n) → Bool) (a : Fin (nWorkers n) × (Nat → Bool)) :
    (poolMixWorker b started s a).InOrder b := by
  obtain ⟨w, connects⟩ := a
  unfold poolMixWorker
  dsimp only
  split
  · rename_i hguard
    obtain ⟨hlo, hhi⟩ := h.within w
    have hworker : workerOf n (b.cells (s.i w)).sessIdx = w :=
      hb w _ (mem_cellRange hlo hguard.2)
    refine ⟨fun v => ?_, fun v => ?_⟩
    · dsimp only
      by_cases hv : v = w
      · subst hv
        rw [Function.update_self]
        exact ⟨Nat.le_succ_of_le hlo, hguard.2⟩
      · rw [Function.update_of_ne hv]
        exact h.within v
    · dsimp only
      rw [List.map_append, List.filter_append, h.front]
      by_cases hv : v = w
      · subst hv
        rw [Function.update_self, Nat.succ_sub hlo, cellRange_succ, Nat.add_sub_cancel' hlo]
        simp [hworker]
      · rw [Function.update_of_ne hv]
        simp [hworker, Ne.symm hv]
  · exact h

/-- The entries of a session that were handled come first among those in its range. -/
theorem Workers.InOrder.ofSession_handled {n : Nat} {b : Buckets n} {s : Workers n}
    (h : s.InOrder b) (sessIdx : Int32) :
    ofSession sessIdx (s.handled.map Prod.fst)
        <+: ofSession sessIdx (b.range (workerOf n sessIdx)) ∧
      (s.i (workerOf n sessIdx) = b.stop (workerOf n sessIdx) →
        ofSession sessIdx (s.handled.map Prod.fst)
          = ofSession sessIdx (b.range (workerOf n sessIdx))) := by
  have hhandled : ofSession sessIdx (s.handled.map Prod.fst)
      = ofSession sessIdx (cellRange b.cells (b.start (workerOf n sessIdx))
          (s.i (workerOf n sessIdx) - b.start (workerOf n sessIdx))) := by
    rw [← h.front, ofSession, ofSession, List.filter_filter]
    refine List.filter_congr fun e _ => ?_
    by_cases he : e.sessIdx = sessIdx <;> simp [he]
  rw [hhandled]
  obtain ⟨hlo, hhi⟩ := h.within (workerOf n sessIdx)
  constructor
  · exact (cellRange_initial _ _ (Nat.sub_le_iff_le_add'.mpr hhi)).filter _
  · intro hdone
    rw [hdone, Buckets.stop, Nat.add_sub_cancel_left, Buckets.range]

/-- Every entry has one of the first `n` cells, these are shared out in ranges, and the entries of
a session are in the range of one worker, in their order. -/
structure Buckets.Holds {n : Nat} (b : Buckets n) (entries : List PoolEntry) : Prop where
  perm : (cellRange b.cells 0 n).Perm entries
  stop_le : ∀ w, b.stop w ≤ n
  owner : ∀ p < n, ∃! w, b.start w ≤ p ∧ p < b.stop w
  session : ∀ sessIdx w, ofSession sessIdx (b.range w)
    = if w = workerOf n sessIdx then ofSession sessIdx entries else []

theorem bucketPass_holds (stale : Nat → PoolEntry) (shuffled : List PoolEntry) :
    (bucketPass shuffled.length stale shuffled).Holds shuffled where
  perm := bucketed_perm _ stale shuffled
  stop_le w := bucketStart_add_le_length _ shuffled w
  owner p hp := by
    let key := fun e : PoolEntry => workerOf shuffled.length e.sessIdx
    obtain ⟨w, hw⟩ := exists_bucket key shuffled hp
    refine ⟨w, hw, fun v hv => ?_⟩
    obtain hlt | heq | hgt := lt_trichotomy v w
    · exact absurd (hv.2.trans_le (bucketStart_add_le_of_lt key shuffled hlt)) (not_lt.mpr hw.1)
    · exact heq
    · exact absurd (hw.2.trans_le (bucketStart_add_le_of_lt key shuffled hgt)) (not_lt.mpr hv.1)
  session sessIdx w := by
    split
    · rename_i hw
      rw [hw, ofSession_range]
    · rename_i hw
      refine List.filter_eq_nil_iff.mpr fun e he hsess => hw ?_
      rw [← of_decide_eq_true hsess]
      exact ((workerOf_range stale shuffled w e).mp he).2.symm

end AnonSecNet.MixNode
