import Mathlib.Algebra.BigOperators.Intervals
import Mathlib.Algebra.Order.BigOperators.Group.Finset
import Mathlib.Algebra.Order.Field.Basic
import Mathlib.Tactic.Linarith
import Mathlib.Tactic.Ring

/-! The points of a rising staircase, taken in an order that only keeps their abscissas. -/
namespace AnonSecNet.Corners
variable {K : Type*} [LinearOrder K]

/-- `k` is the last of the points up to `n` that is not right of `v`. -/
structure LastAt (x : Nat → K) (n : Nat) (v : K) (k : Nat) : Prop where
  le : k ≤ n
  within : x k ≤ v
  next : k < n → v < x (k + 1)

/-- Point `o i` takes the place of point `i`. -/
structure Reordered (x y : Nat → K) (o : Nat → Nat) (n : Nat) : Prop where
  xmono : ∀ i j, i ≤ j → j ≤ n → x i ≤ x j
  ymono : ∀ i j, i ≤ j → j ≤ n → y i ≤ y j
  inside : ∀ i ≤ n, o i ≤ n
  same : ∀ i ≤ n, x (o i) = x i

variable {x y : Nat → K} {o : Nat → Nat} {n : Nat}

theorem LastAt.index_le {v : K} {k i : Nat} (h : LastAt x n v k)
    (hmono : ∀ i j, i ≤ j → j ≤ n → x i ≤ x j) (hi : i ≤ n) (hv : x i ≤ v) : i ≤ k := by
  by_contra hlt
  have hnext := h.next (by omega)
  exact absurd (hnext.trans_le (hmono (k + 1) i (by omega) hi)) (not_lt.mpr hv)

theorem LastAt.unique {v : K} {k k' : Nat} (h : LastAt x n v k) (h' : LastAt x n v k')
    (hmono : ∀ i j, i ≤ j → j ≤ n → x i ≤ x j) : k = k' :=
  le_antisymm (h'.index_le hmono h.le h.within) (h.index_le hmono h'.le h'.within)

/-- Before a step to the right the order can only choose a point that is lower. -/
theorem Reordered.left_le (h : Reordered x y o n) {i : Nat} (hi : i < n) (hlt : x i < x (i + 1)) :
    y (o i) ≤ y i := by
  refine h.ymono _ _ ?_ hi.le
  by_contra hbig
  have hmono := h.xmono (i + 1) (o i) (by omega) (h.inside i hi.le)
  rw [h.same i hi.le] at hmono
  exact absurd hlt (not_lt.mpr hmono)

/-- After the step it can only choose one that is higher. -/
theorem Reordered.right_ge (h : Reordered x y o n) {i : Nat} (hi : i < n)
    (hlt : x i < x (i + 1)) : y (i + 1) ≤ y (o (i + 1)) := by
  refine h.ymono _ _ ?_ (h.inside (i + 1) hi)
  by_contra hsmall
  have hmono := h.xmono (o (i + 1)) i (by omega) hi.le
  rw [h.same (i + 1) hi] at hmono
  exact absurd hlt (not_lt.mpr hmono)

/-- The heights read at all places are right exactly if the order is right before each step to
the right and at the end. -/
theorem reads_iff (h : Reordered x y o n) :
    (∀ v k, x 0 ≤ v → v ≤ x n → LastAt x n v k → y (o k) = y k) ↔
      (∀ i < n, x i < x (i + 1) → y (o i) = y i) ∧ y (o n) = y n := by
  constructor
  · intro hread
    refine ⟨fun i hi hlt => ?_, ?_⟩
    · exact hread (x i) i (h.xmono 0 i (Nat.zero_le i) hi.le) (h.xmono i n hi.le le_rfl)
        ⟨hi.le, le_rfl, fun _ => hlt⟩
    · exact hread (x n) n (h.xmono 0 n (Nat.zero_le n) le_rfl) le_rfl
        ⟨le_rfl, le_rfl, fun hn => absurd hn (lt_irrefl n)⟩
  · rintro ⟨hsteps, hend⟩ v k - - hk
    obtain hlt | rfl := hk.le.lt_or_eq
    · exact hsteps k hlt (hk.within.trans_lt (hk.next hlt))
    · exact hend

variable [Field K]

/-- The area under the segments between the points `(x i, y i)` for `i` up to `n`. -/
def area (x y : Nat → K) (n : Nat) : K :=
  ∑ i ∈ Finset.range n, (x (i + 1) - x i) * (y (i + 1) + y i) / 2

omit [LinearOrder K] in
theorem area_succ (x y : Nat → K) (n : Nat) :
    area x y (n + 1) = (x 1 - x 0) * (y 1 + y 0) / 2
      + area (fun i => x (i + 1)) (fun i => y (i + 1)) n := by
  unfold area
  rw [Finset.sum_range_succ', add_comm]

omit [LinearOrder K] in
theorem area_congr {x y z : Nat → K} {n : Nat} (h : ∀ i ≤ n, y i = z i) :
    area x y n = area x z n := by
  refine Finset.sum_congr rfl fun i hi => ?_
  have hin := Finset.mem_range.mp hi
  rw [h i hin.le, h (i + 1) hin]

/-- When the order is right before the steps, the area is right exactly if it also is after
them. -/
theorem area_reordered_iff [IsStrictOrderedRing K] (h : Reordered x y o n)
    (hleft : ∀ i < n, x i < x (i + 1) → y (o i) = y i) :
    area x (fun i => y (o i)) n = area x y n ↔
      ∀ i < n, x i < x (i + 1) → y (o (i + 1)) = y (i + 1) := by
  have hterm : ∀ i ∈ Finset.range n,
      (x (i + 1) - x i) * (y (o (i + 1)) + y (o i)) / 2 - (x (i + 1) - x i) * (y (i + 1) + y i) / 2
        = (x (i + 1) - x i) * (y (o (i + 1)) - y (i + 1)) / 2 := by
    intro i hi
    obtain hlt | heq := (h.xmono i (i + 1) (Nat.le_succ i) (Finset.mem_range.mp hi)).lt_or_eq
    · rw [hleft i (Finset.mem_range.mp hi) hlt]
      ring
    · rw [heq]
      ring
  have hnonneg : ∀ i ∈ Finset.range n,
      0 ≤ (x (i + 1) - x i) * (y (o (i + 1)) - y (i + 1)) / 2 := by
    intro i hi
    have hin := Finset.mem_range.mp hi
    obtain hlt | heq := (h.xmono i (i + 1) (Nat.le_succ i) hin).lt_or_eq
    · have hright := h.right_ge hin hlt
      have := mul_nonneg (sub_nonneg.mpr hlt.le) (sub_nonneg.mpr hright)
      linarith
    · rw [heq]
      simp
  have hsum : area x (fun i => y (o i)) n - area x y n
      = ∑ i ∈ Finset.range n, (x (i + 1) - x i) * (y (o (i + 1)) - y (i + 1)) / 2 := by
    unfold area
    rw [← Finset.sum_sub_distrib]
    exact Finset.sum_congr rfl hterm
  rw [← sub_eq_zero, hsum, Finset.sum_eq_zero_iff_of_nonneg hnonneg]
  constructor
  · intro hzero i hi hlt
    have hprod := hzero i (Finset.mem_range.mpr hi)
    have hstep : x (i + 1) - x i ≠ 0 := (sub_pos.mpr hlt).ne'
    have hdiff : y (o (i + 1)) - y (i + 1) = 0 := by
      simpa [hstep] using hprod
    exact sub_eq_zero.mp hdiff
  · intro hright i hi
    obtain hlt | heq := (h.xmono i (i + 1) (Nat.le_succ i) (Finset.mem_range.mp hi)).lt_or_eq
    · rw [hright i (Finset.mem_range.mp hi) hlt]
      simp
    · rw [heq]
      simp

/-- The area and all the heights read are right exactly if the order is right on both sides of
each step and at the end. -/
theorem curve_iff [IsStrictOrderedRing K] (h : Reordered x y o n) :
    (area x (fun i => y (o i)) n = area x y n ∧
        ∀ v k, x 0 ≤ v → v ≤ x n → LastAt x n v k → y (o k) = y k) ↔
      (∀ i < n, x i < x (i + 1) → y (o i) = y i ∧ y (o (i + 1)) = y (i + 1)) ∧
        y (o n) = y n := by
  rw [reads_iff h]
  constructor
  · rintro ⟨harea, hleft, hend⟩
    have hright := (area_reordered_iff h hleft).mp harea
    exact ⟨fun i hi hlt => ⟨hleft i hi hlt, hright i hi hlt⟩, hend⟩
  · rintro ⟨hsteps, hend⟩
    have hleft : ∀ i < n, x i < x (i + 1) → y (o i) = y i := fun i hi hlt => (hsteps i hi hlt).1
    exact ⟨(area_reordered_iff h hleft).mpr fun i hi hlt => (hsteps i hi hlt).2, hleft, hend⟩

end AnonSecNet.Corners
