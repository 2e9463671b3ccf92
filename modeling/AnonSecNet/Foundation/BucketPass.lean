import Mathlib.Algebra.BigOperators.Fin
import Mathlib.Data.List.FinRange
import Mathlib.Data.List.Flatten

/-! A stable counting sort into buckets: count, add up where each bucket starts, and write every
item to the next free cell of its bucket. -/
namespace BucketPass
variable {α : Type*} {m : Nat} (key : α → Fin m)

def counts (xs : List α) : Fin m → Nat :=
  xs.foldl (fun count x => Function.update count (key x) (count (key x) + 1)) fun _ => 0

/-- The starts of the buckets that were passed, and where the next one starts. -/
def startStep (count : Fin m → Nat) (s : (Fin m → Nat) × Nat) (w : Fin m) : (Fin m → Nat) × Nat :=
  (Function.update s.1 w s.2, s.2 + count w)

def starts (count : Fin m → Nat) : (Fin m → Nat) × Nat :=
  (List.finRange m).foldl (startStep count) (fun _ => 0, 0)

def bucketStart (xs : List α) (w : Fin m) : Nat := (starts (counts key xs)).1 w

/-- The cells, and how many of each bucket are filled. -/
structure Filling (α : Type*) (m : Nat) where
  cells : Nat → α
  fill : Fin m → Nat

def place (start : Fin m → Nat) (f : Filling α m) (x : α) : Filling α m where
  cells := Function.update f.cells (start (key x) + f.fill (key x)) x
  fill := Function.update f.fill (key x) (f.fill (key x) + 1)

/-- The cells after the pass, over what they held before. -/
def bucketed (stale : Nat → α) (xs : List α) : Nat → α :=
  (xs.foldl (place key (bucketStart key xs)) ⟨stale, fun _ => 0⟩).cells

/-- The cells from `start` on. -/
def cellRange (cells : Nat → α) (start count : Nat) : List α :=
  (List.range count).map fun k => cells (start + k)

def bucket (xs : List α) (w : Fin m) : List α := xs.filter fun x => decide (key x = w)

/-! Counts and starts. -/

theorem counts_concat (xs : List α) (x : α) :
    counts key (xs ++ [x])
      = Function.update (counts key xs) (key x) (counts key xs (key x) + 1) := by
  simp [counts, List.foldl_append]

theorem bucket_concat_self (xs : List α) (x : α) :
    bucket key (xs ++ [x]) (key x) = bucket key xs (key x) ++ [x] := by
  simp [bucket]

theorem bucket_concat_of_ne {w : Fin m} {x : α} (h : w ≠ key x) (xs : List α) :
    bucket key (xs ++ [x]) w = bucket key xs w := by
  simp [bucket, h.symm]

theorem counts_eq (xs : List α) (w : Fin m) : counts key xs w = (bucket key xs w).length := by
  induction xs using List.reverseRecOn with
  | nil => rfl
  | append_singleton xs x ih =>
    rw [counts_concat]
    by_cases hw : w = key x
    · subst hw
      rw [Function.update_self, bucket_concat_self, List.length_append, List.length_singleton, ih]
    · rw [Function.update_of_ne hw, bucket_concat_of_ne key hw, ih]

/-- The running sum over the buckets before `w`. -/
def before (count : Fin m → Nat) (w : Nat) : Nat := (((List.finRange m).take w).map count).sum

theorem take_finRange_succ {k : Nat} (hk : k < m) :
    (List.finRange m).take (k + 1) = (List.finRange m).take k ++ [⟨k, hk⟩] := by
  rw [List.take_add_one, List.getElem?_eq_getElem (by rwa [List.length_finRange]),
    List.getElem_finRange]
  rfl

theorem before_succ (count : Fin m → Nat) (w : Fin m) :
    before count (w + 1) = before count w + count w := by
  unfold before
  rw [take_finRange_succ w.isLt, List.map_append, List.sum_append]
  simp

theorem starts_take (count : Fin m → Nat) {k : Nat} (hk : k ≤ m) :
    let f := ((List.finRange m).take k).foldl (startStep count) (fun _ => 0, 0)
    (∀ w : Fin m, w.val < k → f.1 w = before count w) ∧ f.2 = before count k := by
  induction k with
  | zero => exact ⟨fun w hw => absurd hw (Nat.not_lt_zero _), rfl⟩
  | succ k ih =>
    obtain ⟨hstart, hrunning⟩ := ih (Nat.le_of_succ_le hk)
    rw [take_finRange_succ hk, List.foldl_append]
    refine ⟨fun w hw => ?_, ?_⟩
    · change Function.update _ _ _ w = _
      by_cases hwk : w = ⟨k, hk⟩
      · subst hwk
        rw [Function.update_self, hrunning]
      · rw [Function.update_of_ne hwk]
        exact hstart w (by have := Fin.val_ne_of_ne hwk; dsimp only at this; omega)
    · rw [before_succ count ⟨k, hk⟩, ← hrunning]
      rfl

theorem starts_eq (count : Fin m → Nat) :
    (∀ w : Fin m, (starts count).1 w = before count w) ∧ (starts count).2 = before count m := by
  have htake := starts_take count (le_refl m)
  rw [List.take_of_length_le (by rw [List.length_finRange])] at htake
  exact ⟨fun w => htake.1 w w.isLt, htake.2⟩

theorem before_mono (count : Fin m → Nat) {v w : Nat} (h : v ≤ w) (hw : w ≤ m) :
    before count v ≤ before count w := by
  induction w, h using Nat.le_induction with
  | base => exact le_rfl
  | succ w hvw ih =>
    have hsucc := before_succ count ⟨w, hw⟩
    dsimp only at hsucc
    rw [hsucc]
    exact (ih (by omega)).trans (Nat.le_add_right _ _)

/-- The ranges of two buckets lie one behind the other. -/
theorem before_le_of_lt (count : Fin m → Nat) {v w : Fin m} (h : v < w) :
    before count v + count v ≤ before count w := by
  rw [← before_succ]
  exact before_mono count h w.isLt.le

theorem bucketStart_eq (xs : List α) (w : Fin m) :
    bucketStart key xs w = before (counts key xs) w :=
  (starts_eq _).1 w

theorem bucketStart_add_le_of_lt (xs : List α) {v w : Fin m} (h : v < w) :
    bucketStart key xs v + counts key xs v ≤ bucketStart key xs w := by
  rw [bucketStart_eq, bucketStart_eq]
  exact before_le_of_lt _ h

/-! Ranges of cells. -/

theorem cellRange_succ (cells : Nat → α) (start count : Nat) :
    cellRange cells start (count + 1) = cellRange cells start count ++ [cells (start + count)] := by
  simp [cellRange, List.range_succ]

theorem cellRange_add (cells : Nat → α) (start a b : Nat) :
    cellRange cells start (a + b)
      = cellRange cells start a ++ cellRange cells (start + a) b := by
  induction b with
  | zero => simp [cellRange]
  | succ b ih => rw [← Nat.add_assoc, cellRange_succ, ih, cellRange_succ, List.append_assoc,
      Nat.add_assoc]

theorem cellRange_update (cells : Nat → α) {p start count : Nat} (h : p < start ∨ start + count ≤ p)
    (x : α) : cellRange (Function.update cells p x) start count = cellRange cells start count := by
  refine List.map_congr_left fun k hk => Function.update_of_ne ?_ _ _
  have := List.mem_range.mp hk
  omega

theorem mem_cellRange {cells : Nat → α} {start count p : Nat} (hlo : start ≤ p)
    (hhi : p < start + count) : cells p ∈ cellRange cells start count :=
  List.mem_map.mpr ⟨p - start, List.mem_range.mpr (by omega), by rw [Nat.add_sub_cancel' hlo]⟩

theorem cellRange_initial (cells : Nat → α) (start : Nat) {a b : Nat} (h : a ≤ b) :
    cellRange cells start a <+: cellRange cells start b := by
  rw [← Nat.add_sub_cancel' h, cellRange_add]
  exact List.prefix_append _ _

/-! Placing. -/

theorem counts_le_of_prefix {xs ys : List α} (h : ys <+: xs) (w : Fin m) :
    counts key ys w ≤ counts key xs w := by
  rw [counts_eq, counts_eq]
  exact (h.filter _).length_le

/-- What was placed of each bucket lies at the front of its range, in order. -/
theorem place_initial (stale : Nat → α) {xs ys : List α} (h : ys <+: xs) :
    let f := ys.foldl (place key (bucketStart key xs)) ⟨stale, fun _ => 0⟩
    f.fill = counts key ys ∧
      ∀ w, cellRange f.cells (bucketStart key xs w) (counts key ys w) = bucket key ys w := by
  induction ys using List.reverseRecOn with
  | nil => exact ⟨rfl, fun _ => rfl⟩
  | append_singleton ys x ih =>
    obtain ⟨hfill, hcells⟩ := ih ((List.prefix_append ys [x]).trans h)
    have hroom : counts key ys (key x) < counts key xs (key x) := by
      have hle := counts_le_of_prefix key h (key x)
      rwa [counts_concat, Function.update_self] at hle
    rw [List.foldl_append]
    dsimp only [List.foldl_cons, List.foldl_nil, place]
    rw [hfill]
    refine ⟨(counts_concat key ys x).symm, fun w => ?_⟩
    rw [counts_concat]
    by_cases hw : w = key x
    · subst hw
      rw [Function.update_self, cellRange_succ, Function.update_self,
        cellRange_update _ (Or.inr le_rfl), hcells, bucket_concat_self]
    · rw [Function.update_of_ne hw, bucket_concat_of_ne key hw, ← hcells]
      refine cellRange_update _ ?_ x
      have hle := counts_le_of_prefix key ((List.prefix_append ys [x]).trans h) w
      -- the cell lies in the range of another bucket
      rcases lt_or_gt_of_ne hw with hlt | hgt
      · have := bucketStart_add_le_of_lt key xs hlt
        omega
      · have := bucketStart_add_le_of_lt key xs hgt
        omega

/-- The range of a bucket holds its items in their order. -/
theorem bucketed_range (stale : Nat → α) (xs : List α) (w : Fin m) :
    cellRange (bucketed key stale xs) (bucketStart key xs w) (counts key xs w) = bucket key xs w :=
  (place_initial key stale (List.prefix_refl xs)).2 w

theorem flatMap_bucket_perm (xs : List α) :
    ((List.finRange m).flatMap (bucket key xs)).Perm xs := by
  classical
  rw [List.perm_iff_count]
  intro a
  have hcount : ∀ w, (bucket key xs w).count a = if key a = w then xs.count a else 0 := by
    intro w
    by_cases hw : key a = w
    · rw [if_pos hw]
      exact List.count_filter (by simpa using hw)
    · rw [if_neg hw, List.count_eq_zero]
      simp [bucket, hw]
  have hsum : (List.map (List.count a ∘ bucket key xs) (List.finRange m)).sum
      = ∑ w, if key a = w then xs.count a else 0 := by
    rw [Fin.sum_univ_def]
    exact congrArg List.sum (List.map_congr_left fun w _ => hcount w)
  rw [List.count_flatMap, hsum, Finset.sum_ite_eq, if_pos (Finset.mem_univ _)]

/-- The ranges of the first buckets, one behind the other. -/
theorem bucketed_before (stale : Nat → α) (xs : List α) {k : Nat} (hk : k ≤ m) :
    cellRange (bucketed key stale xs) 0 (before (counts key xs) k)
      = ((List.finRange m).take k).flatMap (bucket key xs) := by
  induction k with
  | zero => rfl
  | succ k ih =>
    have hrange := bucketed_range key stale xs ⟨k, hk⟩
    rw [bucketStart_eq] at hrange
    rw [take_finRange_succ hk, List.flatMap_append, ← ih (Nat.le_of_succ_le hk),
      before_succ _ ⟨k, hk⟩, cellRange_add, Nat.zero_add, hrange]
    simp

theorem before_total (xs : List α) : before (counts key xs) m = xs.length := by
  rw [← (flatMap_bucket_perm key xs).length_eq, List.length_flatMap, before,
    List.take_of_length_le (by rw [List.length_finRange])]
  exact congrArg List.sum (List.map_congr_left fun w _ => counts_eq key xs w)

theorem bucketStart_add_le_length (xs : List α) (w : Fin m) :
    bucketStart key xs w + counts key xs w ≤ xs.length := by
  rw [bucketStart_eq, ← before_succ, ← before_total key xs]
  exact before_mono _ w.isLt le_rfl

/-- The ranges leave no cell out. -/
theorem exists_bucket (xs : List α) {p : Nat} (hp : p < xs.length) :
    ∃ w, bucketStart key xs w ≤ p ∧ p < bucketStart key xs w + counts key xs w := by
  have hbelow : ∀ k ≤ m, p < before (counts key xs) k →
      ∃ w, bucketStart key xs w ≤ p ∧ p < bucketStart key xs w + counts key xs w := by
    intro k
    induction k with
    | zero => exact fun _ h => absurd h (Nat.not_lt_zero p)
    | succ k ih =>
      intro hk h
      by_cases hlt : p < before (counts key xs) k
      · exact ih (Nat.le_of_succ_le hk) hlt
      · refine ⟨⟨k, hk⟩, ?_, ?_⟩
        · rw [bucketStart_eq]
          exact Nat.le_of_not_lt hlt
        · rw [bucketStart_eq, ← before_succ]
          exact h
  exact hbelow m le_rfl (by rwa [before_total])

/-- Every item is in one of the first cells, and as often as it was in the list. -/
theorem bucketed_perm (stale : Nat → α) (xs : List α) :
    (cellRange (bucketed key stale xs) 0 xs.length).Perm xs := by
  have hall := bucketed_before key stale xs (le_refl m)
  rw [before_total, List.take_of_length_le (by rw [List.length_finRange])] at hall
  rw [hall]
  exact flatMap_bucket_perm key xs

end BucketPass
