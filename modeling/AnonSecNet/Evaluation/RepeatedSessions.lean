import AnonSecNet.Foundation.Trials
import Mathlib.Algebra.Order.Floor.Semiring
import Mathlib.Analysis.SpecialFunctions.Log.Basic
import Mathlib.Order.Bounds.Basic

/-! The sessions until a disclosure in `asn_repeated_sessions.py`, and the batches of sessions on
one topology in `asn_topology_freshness.py`. -/
namespace AnonSecNet.Evaluation
open Trials

section
variable {R : Type*} [Field R] [LinearOrder R]

/-- `log1p` and `expm1` are those of the math module. -/
def cumulativeProb (log1p expm1 : R → R) (p : R) (n : Nat) : R :=
  if p ≤ 0 then 0
  else if 1 ≤ p then 1
  else -expm1 (n * log1p (-p))

def sessionsToThreshold [FloorRing R] (log log1p : R → R) (p threshold : R) : Option Nat :=
  if p ≤ 0 then none
  else if threshold ≤ p then some 1
  else
    let n := log (1 - threshold) / log1p (-p)
    some (max 1 ⌈n⌉).toNat

end

/-- `n50_b` of a batch size. -/
def batchedSessions (b : Nat) (n50Fresh : Option Nat) : Option Nat := n50Fresh.map (b * ·)

/-- The draws that `n` sessions make when `b` of them share one. -/
def drawsIn (b n : Nat) : Nat := (n + b - 1) / b

noncomputable def log1p (x : ℝ) : ℝ := Real.log (1 + x)

noncomputable def expm1 (x : ℝ) : ℝ := Real.exp x - 1

variable {p threshold : ℝ}

theorem chance_hit (p : ℝ) (n : Nat) : chance p n (fun bs => true ∈ bs) = 1 - (1 - p) ^ n := by
  induction n with
  | zero => simp [chance, expect]
  | succ n ih =>
    have hmiss : expect p n (fun bs => if true ∈ false :: bs then (1 : ℝ) else 0) =
        1 - (1 - p) ^ n := by
      rw [← ih]
      simp [chance]
    unfold chance
    rw [expect, hmiss]
    simp only [List.mem_cons_self, if_true, expect_const]
    ring

theorem one_sub_pow_le (h0 : 0 ≤ p) (h1 : p ≤ 1) {m n : Nat} (h : m ≤ n) :
    1 - (1 - p) ^ m ≤ 1 - (1 - p) ^ n :=
  sub_le_sub_left (pow_le_pow_of_le_one (by linarith) (by linarith) h) 1

/-- The logarithms lose nothing. -/
theorem cumulativeProb_eq (h0 : 0 ≤ p) (h1 : p ≤ 1) {n : Nat} (hn : 1 ≤ n) :
    cumulativeProb log1p expm1 p n = 1 - (1 - p) ^ n := by
  unfold cumulativeProb
  split
  · rename_i hp
    rw [le_antisymm hp h0, sub_zero, one_pow, sub_self]
  · split
    · rename_i hp
      rw [le_antisymm h1 hp, sub_self, zero_pow (by omega), sub_zero]
    · rename_i hp
      have hsurvive : 0 < 1 - p := by linarith [not_le.mp hp]
      simp only [log1p, expm1]
      rw [← sub_eq_add_neg, Real.exp_nat_mul, Real.exp_log hsurvive, neg_sub]

/-- Between the rate of one session and certainty the two logarithms are negative. -/
theorem le_one_sub_pow_iff (h0 : 0 < p) (h1 : p < 1) (hthreshold : threshold < 1) (n : Nat) :
    threshold ≤ 1 - (1 - p) ^ n ↔ ⌈Real.log (1 - threshold) / log1p (-p)⌉ ≤ n := by
  have hsurvive : 0 < 1 - p := by linarith
  have hlog : Real.log (1 - p) < 0 := Real.log_neg hsurvive (by linarith)
  rw [Int.ceil_le, log1p, ← sub_eq_add_neg, Int.cast_natCast, div_le_iff_of_neg hlog,
    ← Real.log_pow, Real.log_le_log_iff (pow_pos hsurvive n) (by linarith), le_sub_comm]

theorem sessionsToThreshold_iff (h1 : p ≤ 1) (hthreshold : threshold < 1) {n50 : Nat}
    (h : sessionsToThreshold Real.log log1p p threshold = some n50) :
    1 ≤ n50 ∧ ∀ n, 1 ≤ n → (threshold ≤ 1 - (1 - p) ^ n ↔ n50 ≤ n) := by
  unfold sessionsToThreshold at h
  split at h
  · cases h
  · rename_i hp
    have h0 := not_le.mp hp
    split at h
    · rename_i hle
      cases h
      refine ⟨le_rfl, fun n hn => iff_of_true ?_ hn⟩
      calc
        threshold ≤ 1 - (1 - p) ^ 1 := by linarith
        _ ≤ 1 - (1 - p) ^ n := one_sub_pow_le h0.le h1 hn
    · rename_i hlt
      cases h
      have hp1 : p < 1 := (not_le.mp hlt).trans hthreshold
      refine ⟨by omega, fun n hn => ?_⟩
      rw [le_one_sub_pow_iff h0 hp1 hthreshold]
      omega

theorem drawsIn_pos {b n : Nat} (hb : 1 ≤ b) (hn : 1 ≤ n) : 1 ≤ drawsIn b n :=
  Nat.div_pos (by omega) hb

theorem le_drawsIn_iff {b k : Nat} (hb : 1 ≤ b) (hk : 1 ≤ k) (n : Nat) :
    k ≤ drawsIn b n ↔ b * (k - 1) + 1 ≤ n := by
  obtain ⟨k, rfl⟩ := Nat.exists_eq_add_of_le' hk
  unfold drawsIn
  rw [Nat.le_div_iff_mul_le hb, Nat.add_sub_cancel, Nat.add_mul, Nat.mul_comm b]
  omega

end AnonSecNet.Evaluation
