import AnonSecNet.Foundation.Machine
import Mathlib.Algebra.Order.Ring.Rat
import Mathlib.Data.List.Forall2
import Mathlib.Data.List.Pairwise
import Mathlib.Data.List.Sort

/-! `apply_threshold_batching` of `flowcorr_run.py`. -/
namespace AnonSecNet.Evaluation

/-- The variables of the loop; `batchStart` is not read while the batch is empty. `starts` lists,
beside `out`, when the batch of each released packet was opened. -/
structure Batching where
  out : List ℚ
  batch : List ℚ
  batchStart : ℚ
  starts : List ℚ
deriving DecidableEq

def Batching.initial : Batching := ⟨[], [], 0, []⟩

variable (batchSize : Nat) (timeoutMs : ℚ)

/-- Everybody in the batch is released at `t`. -/
def Batching.release (s : Batching) (t : ℚ) : Batching :=
  { s with
    out := s.out ++ List.replicate s.batch.length t
    batch := []
    starts := s.starts ++ List.replicate s.batch.length s.batchStart }

/-- The body of the loop. -/
def Batching.add (s : Batching) (t : ℚ) : Batching :=
  let s := if s.batch = [] then { s with batchStart := t } else s
  let s := { s with batch := s.batch ++ [t] }
  if batchSize ≤ s.batch.length ∨ (0 < timeoutMs ∧ timeoutMs ≤ t - s.batchStart) then s.release t
  else s

/-- The flush of the trailing batch. -/
def Batching.flush (s : Batching) : Batching :=
  match s.batch.getLast? with
  | none => s
  | some last => s.release last

def batchLoop (times : List ℚ) : Batching :=
  (Machine.run (Batching.add batchSize timeoutMs) (times.insertionSort (· ≤ ·)) .initial).flush

def applyThresholdBatching (times : List ℚ) : List ℚ := (batchLoop batchSize timeoutMs times).out

/-- No packet was released later than `timeoutMs` after its batch was opened. -/
def Batching.Held (s : Batching) : Prop :=
  List.Forall₂ (fun start release => release - start ≤ timeoutMs) s.starts s.out

/-- A batch: the packet that opens it and those that join. -/
structure Batch where
  first : ℚ
  others : List ℚ
deriving DecidableEq

def Batch.packets (b : Batch) : List ℚ := b.first :: b.others

def Batch.size (b : Batch) : Nat := b.others.length + 1

def Batch.last (b : Batch) : ℚ := b.packets.getLast (List.cons_ne_nil _ _)

/-- How many of the packets that come later join the one that opens a batch: those that come before
its timeout and the next one after them, as far as there is room. -/
def joining (first : ℚ) (later : List ℚ) : Nat :=
  if 0 < timeoutMs then
    min (batchSize - 1) ((later.takeWhile fun t => t - first < timeoutMs).length + 1)
  else batchSize - 1

/-- The sorted arrivals cut into batches. -/
def batches : List ℚ → List Batch
  | [] => []
  | first :: later =>
    ⟨first, later.take (joining batchSize timeoutMs first later)⟩ ::
      batches (later.drop (joining batchSize timeoutMs first later))
termination_by times => times.length
decreasing_by
  simp only [List.length_drop, List.length_cons]
  omega

/-- No packet joins later than the timeout after the one that opened the batch. -/
def Batch.InTime (b : Batch) : Prop := ∀ t ∈ b.others, t - b.first ≤ timeoutMs

/-! The loop makes these batches. -/

/-- A batch that is neither full nor past its timeout. -/
structure Opened (first : ℚ) (others : List ℚ) : Prop where
  room : others.length + 1 < batchSize
  early : 0 < timeoutMs → ∀ t ∈ others, t - first < timeoutMs

section
variable {batchSize timeoutMs} {first t : ℚ} {others : List ℚ}

theorem Opened.opening (h : 1 < batchSize) : Opened batchSize timeoutMs first [] :=
  ⟨h, fun _ _ ht => absurd ht List.not_mem_nil⟩

theorem Opened.join (h : Opened batchSize timeoutMs first others)
    (hroom : others.length + 2 < batchSize) (hearly : 0 < timeoutMs → t - first < timeoutMs) :
    Opened batchSize timeoutMs first (others ++ [t]) := by
  constructor
  · rw [List.length_append, List.length_singleton]
    exact hroom
  · intro htimeout t' ht'
    obtain ht' | ht' := List.mem_append.mp ht'
    · exact h.early htimeout t' ht'
    · rw [List.mem_singleton.mp ht']
      exact hearly htimeout

/-- What joined an open batch is what `joining` counts first. -/
theorem Opened.joining_eq (h : Opened batchSize timeoutMs first others) (later : List ℚ) :
    joining batchSize timeoutMs first (others ++ later)
      = others.length + joining (batchSize - others.length) timeoutMs first later := by
  have hroom := h.room
  unfold joining
  split
  · rename_i htimeout
    have htake : (others ++ later).takeWhile (fun t => decide (t - first < timeoutMs))
        = others ++ later.takeWhile fun t => decide (t - first < timeoutMs) :=
      List.takeWhile_append_of_pos fun t ht => decide_eq_true (h.early htimeout t ht)
    rw [htake, List.length_append]
    omega
  · omega

theorem joining_hit (hroom : 1 < batchSize)
    (hhit : batchSize ≤ 2 ∨ 0 < timeoutMs ∧ timeoutMs ≤ t - first) (later : List ℚ) :
    joining batchSize timeoutMs first (t :: later) = 1 := by
  unfold joining
  obtain hhit | ⟨htimeout, hlate⟩ := hhit
  · split <;> omega
  · rw [if_pos htimeout, List.takeWhile_cons_of_neg (by simpa using hlate)]
    simp only [List.length_nil]
    omega

theorem batches_cons {n : Nat} {later : List ℚ}
    (h : joining batchSize timeoutMs first later = n) :
    batches batchSize timeoutMs (first :: later)
      = ⟨first, later.take n⟩ :: batches batchSize timeoutMs (later.drop n) := by
  rw [batches, h]

theorem Opened.batches_hit (h : Opened batchSize timeoutMs first others)
    (hhit : batchSize ≤ others.length + 2 ∨ 0 < timeoutMs ∧ timeoutMs ≤ t - first)
    (later : List ℚ) :
    batches batchSize timeoutMs (first :: others ++ t :: later)
      = ⟨first, others ++ [t]⟩ :: batches batchSize timeoutMs later := by
  have hroom := h.room
  have hjoining := h.joining_eq (t :: later)
  rw [joining_hit (by omega) (hhit.imp_left (by omega))] at hjoining
  rw [List.cons_append, batches_cons hjoining, List.append_cons,
    ← List.length_singleton (a := t), ← List.length_append, List.take_left, List.drop_left]

theorem Opened.batches_rest (h : Opened batchSize timeoutMs first others) :
    batches batchSize timeoutMs (first :: others) = [⟨first, others⟩] := by
  have hjoining := h.joining_eq []
  rw [List.append_nil] at hjoining
  rw [batches_cons hjoining, List.take_of_length_le (by omega), List.drop_of_length_le (by omega),
    batches]

theorem batches_full (h : batchSize ≤ 1) (later : List ℚ) :
    batches batchSize timeoutMs (first :: later)
      = ⟨first, []⟩ :: batches batchSize timeoutMs later := by
  have hjoining : joining batchSize timeoutMs first later = 0 := by
    unfold joining
    split <;> omega
  exact batches_cons hjoining

end

/-- What is released of the batches, and when they were opened. -/
def released (bs : List Batch) : List ℚ := bs.flatMap fun b => List.replicate b.size b.last

def openings (bs : List Batch) : List ℚ := bs.flatMap fun b => List.replicate b.size b.first

/-- The loop has nothing or an open batch. -/
def Batching.Ready (s : Batching) : Prop :=
  match s.batch with
  | [] => True
  | first :: others => s.batchStart = first ∧ Opened batchSize timeoutMs first others

theorem Batching.add_opened (out starts others : List ℚ) (first t : ℚ) :
    Batching.add batchSize timeoutMs ⟨out, first :: others, first, starts⟩ t
      = if batchSize ≤ others.length + 2 ∨ 0 < timeoutMs ∧ timeoutMs ≤ t - first then
          ⟨out ++ List.replicate (others.length + 2) t, [], first,
            starts ++ List.replicate (others.length + 2) first⟩
        else ⟨out, first :: others ++ [t], first, starts⟩ := by
  have hlength : (first :: others ++ [t]).length = others.length + 2 := by simp
  unfold Batching.add Batching.release
  rw [if_neg (List.cons_ne_nil first others)]
  dsimp only
  rw [hlength]

/-- One packet: it stays in the batch, or the first batch of those that are left is released. -/
theorem Batching.add_cases {s : Batching} (hs : s.Ready batchSize timeoutMs) (t : ℚ) :
    (∃ start, s.add batchSize timeoutMs t = ⟨s.out, s.batch ++ [t], start, s.starts⟩ ∧
        (s.add batchSize timeoutMs t).Ready batchSize timeoutMs) ∨
      ∃ b : Batch, s.add batchSize timeoutMs t
          = ⟨s.out ++ List.replicate b.size b.last, [], b.first,
              s.starts ++ List.replicate b.size b.first⟩ ∧
        ∀ later, batches batchSize timeoutMs (s.batch ++ t :: later)
          = b :: batches batchSize timeoutMs later := by
  obtain ⟨out, batch, start, starts⟩ := s
  cases batch with
  | nil =>
    by_cases hfull : batchSize ≤ 1
    · exact .inr ⟨⟨t, []⟩, if_pos (.inl hfull), batches_full hfull⟩
    · have hstays : ¬ (batchSize ≤ 1 ∨ 0 < timeoutMs ∧ timeoutMs ≤ t - t) := by
        rw [sub_self]
        exact fun h => h.elim hfull fun h => absurd h.1 (not_lt.mpr h.2)
      have hadd : Batching.add batchSize timeoutMs ⟨out, [], start, starts⟩ t
          = ⟨out, [t], t, starts⟩ := if_neg hstays
      refine .inl ⟨t, hadd, ?_⟩
      rw [hadd]
      exact ⟨rfl, .opening (by omega)⟩
  | cons first others =>
    obtain ⟨hstart, hopen⟩ := hs
    obtain rfl : start = first := hstart
    rw [Batching.add_opened]
    split
    · rename_i hhit
      refine .inr ⟨⟨start, others ++ [t]⟩, ?_, hopen.batches_hit hhit⟩
      have hsize : Batch.size ⟨start, others ++ [t]⟩ = others.length + 2 := by
        unfold Batch.size
        rw [List.length_append, List.length_singleton]
      have hlast : Batch.last ⟨start, others ++ [t]⟩ = t :=
        List.getLast_concat (l := start :: others)
      rw [hsize, hlast]
    · rename_i hstays
      obtain ⟨hroom, hlate⟩ := not_or.mp hstays
      refine .inl ⟨start, rfl, rfl, hopen.join (by omega) fun h => ?_⟩
      exact not_le.mp fun hle => hlate ⟨h, hle⟩

theorem Batching.Ready.flush {s : Batching} (hs : s.Ready batchSize timeoutMs) :
    s.flush.out = s.out ++ released (batches batchSize timeoutMs s.batch) ∧
      s.flush.starts = s.starts ++ openings (batches batchSize timeoutMs s.batch) := by
  obtain ⟨out, batch, start, starts⟩ := s
  cases batch with
  | nil =>
    rw [batches]
    exact ⟨(List.append_nil _).symm, (List.append_nil _).symm⟩
  | cons first others =>
    obtain ⟨hstart, hopen⟩ := hs
    obtain rfl : start = first := hstart
    rw [hopen.batches_rest]
    have hlast : (start :: others).getLast? = some (Batch.last ⟨start, others⟩) :=
      List.getLast?_eq_some_getLast (List.cons_ne_nil _ _)
    unfold Batching.flush
    rw [hlast]
    exact ⟨congrArg (out ++ ·) (List.append_nil _).symm,
      congrArg (starts ++ ·) (List.append_nil _).symm⟩

theorem run_batches (times : List ℚ) {s : Batching} (hs : s.Ready batchSize timeoutMs) :
    (Machine.run (Batching.add batchSize timeoutMs) times s).flush.out
        = s.out ++ released (batches batchSize timeoutMs (s.batch ++ times)) ∧
      (Machine.run (Batching.add batchSize timeoutMs) times s).flush.starts
        = s.starts ++ openings (batches batchSize timeoutMs (s.batch ++ times)) := by
  induction times generalizing s with
  | nil =>
    rw [List.append_nil]
    exact hs.flush
  | cons t times ih =>
    change (Machine.run _ times (s.add batchSize timeoutMs t)).flush.out = _ ∧
      (Machine.run _ times (s.add batchSize timeoutMs t)).flush.starts = _
    obtain ⟨start, hadd, hready⟩ | ⟨b, hadd, hbatches⟩ := s.add_cases batchSize timeoutMs hs t
    · have hrun := ih hready
      rw [hadd] at hrun ⊢
      rw [List.append_cons s.batch t times]
      exact hrun
    · have hrun := ih (s := s.add batchSize timeoutMs t) (by rw [hadd]; trivial)
      rw [hadd] at hrun ⊢
      rw [hbatches]
      unfold released openings at hrun ⊢
      rw [List.flatMap_cons, List.flatMap_cons, ← List.append_assoc, ← List.append_assoc]
      exact hrun

/-- The loop refines the batches. -/
theorem batchLoop_batches (times : List ℚ) :
    applyThresholdBatching batchSize timeoutMs times
        = released (batches batchSize timeoutMs (times.insertionSort (· ≤ ·))) ∧
      (batchLoop batchSize timeoutMs times).starts
        = openings (batches batchSize timeoutMs (times.insertionSort (· ≤ ·))) :=
  run_batches batchSize timeoutMs (times.insertionSort (· ≤ ·)) (s := .initial) trivial

/-! What the batches say of the releases. -/

section
variable {α β γ : Type*} {R : α → β → Prop}

theorem forall₂_append_iff {a c : List α} {b d : List β} (h : a.length = b.length) :
    List.Forall₂ R (a ++ c) (b ++ d) ↔ List.Forall₂ R a b ∧ List.Forall₂ R c d := by
  constructor
  · intro hall
    have htake := List.forall₂_take_append _ b d hall
    have hdrop := List.forall₂_drop_append _ b d hall
    rw [← h, List.take_left] at htake
    rw [← h, List.drop_left] at hdrop
    exact ⟨htake, hdrop⟩
  · exact fun ⟨hab, hcd⟩ => List.rel_append hab hcd

theorem forall₂_flatMap_iff {f : γ → List α} {g : γ → List β}
    (h : ∀ c, (f c).length = (g c).length) (cs : List γ) :
    List.Forall₂ R (cs.flatMap f) (cs.flatMap g) ↔ ∀ c ∈ cs, List.Forall₂ R (f c) (g c) := by
  induction cs with
  | nil => exact iff_of_true .nil (List.forall_mem_nil _)
  | cons c cs ih =>
    rw [List.flatMap_cons, List.flatMap_cons, forall₂_append_iff (h c), ih, List.forall_mem_cons]

theorem forall₂_replicate_iff {l : List α} {b : β} :
    List.Forall₂ R l (List.replicate l.length b) ↔ ∀ a ∈ l, R a b := by
  induction l with
  | nil => exact iff_of_true .nil (List.forall_mem_nil _)
  | cons a l ih =>
    rw [List.length_cons, List.replicate_succ, List.forall₂_cons, ih, List.forall_mem_cons]

end

theorem Batch.last_mem (b : Batch) : b.last ∈ b.packets := List.getLast_mem _

theorem Batch.le_last {b : Batch} (h : b.packets.Pairwise (· ≤ ·)) {t : ℚ} (ht : t ∈ b.packets) :
    t ≤ b.last :=
  h.rel_getLast ht

/-- The batches are the arrivals, cut. -/
theorem batches_flatMap (times : List ℚ) :
    (batches batchSize timeoutMs times).flatMap Batch.packets = times := by
  induction times using batches.induct batchSize timeoutMs with
  | case1 => rw [batches, List.flatMap_nil]
  | case2 first later ih =>
    rw [batches, List.flatMap_cons, ih]
    exact congrArg (first :: ·) (List.take_append_drop _ later)

section
variable {bs : List Batch}

theorem released_sorted (h : (bs.flatMap Batch.packets).Pairwise (· ≤ ·)) :
    (released bs).Pairwise (· ≤ ·) := by
  obtain ⟨-, hbetween⟩ := List.pairwise_flatMap.mp h
  refine List.pairwise_flatMap.mpr ⟨fun b _ => List.pairwise_replicate.mpr (.inr le_rfl), ?_⟩
  refine hbetween.imp fun {b b'} hle t ht t' ht' => ?_
  rw [List.eq_of_mem_replicate ht, List.eq_of_mem_replicate ht']
  exact hle b.last b.last_mem b'.last b'.last_mem

theorem le_released (h : (bs.flatMap Batch.packets).Pairwise (· ≤ ·)) :
    List.Forall₂ (· ≤ ·) (bs.flatMap Batch.packets) (released bs) := by
  refine (forall₂_flatMap_iff (fun b => List.length_replicate.symm) bs).mpr fun b hb => ?_
  have hsorted := (List.pairwise_flatMap.mp h).1 b hb
  exact forall₂_replicate_iff.mpr fun t ht => b.le_last hsorted ht

theorem held_batches (h : (bs.flatMap Batch.packets).Pairwise (· ≤ ·)) (htimeout : 0 < timeoutMs) :
    List.Forall₂ (fun start release => release - start ≤ timeoutMs) (openings bs) (released bs) ↔
      ∀ b ∈ bs, b.InTime timeoutMs := by
  unfold openings released
  rw [forall₂_flatMap_iff fun b => List.length_replicate.trans List.length_replicate.symm]
  refine forall₂_congr fun b hb => ?_
  have hsorted := (List.pairwise_flatMap.mp h).1 b hb
  have hsize : b.size = (List.replicate b.size b.first).length := List.length_replicate.symm
  have hlast := forall₂_replicate_iff (R := fun start release => release - start ≤ timeoutMs)
    (l := List.replicate b.size b.first) (b := b.last)
  rw [List.length_replicate] at hlast
  rw [hlast]
  constructor
  · intro hheld t ht
    have hspan := hheld b.first (List.mem_replicate.mpr ⟨Nat.succ_ne_zero _, rfl⟩)
    exact (sub_le_sub_right (b.le_last hsorted (List.mem_cons_of_mem _ ht)) _).trans hspan
  · intro hin start hstart
    rw [List.eq_of_mem_replicate hstart]
    obtain hfirst | hothers := List.mem_cons.mp b.last_mem
    · rw [hfirst, sub_self]
      exact htimeout.le
    · exact hin b.last hothers

end

end AnonSecNet.Evaluation
