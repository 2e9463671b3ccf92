import AnonSecNet.Evaluation.RepeatedSessions
import AnonSecNet.Evaluation.Roc
import Mathlib.Algebra.BigOperators.Field
import Mathlib.Data.Nat.Choose.Vandermonde

/-! Guard sets and repeated use in `asn_guard_policy_n50.py`. `log`, `log1p` and `expm1` are those
of the math module; `none` is an infinite number of sessions. -/
namespace AnonSecNet.Evaluation

def applyRho (pSession f rho : ℚ) : ℚ := rho * f + (1 - rho) * pSession

def hypergeomPmf (M KPop G : Nat) : List ℚ :=
  (List.range (G + 1)).map fun k =>
    if KPop < k ∨ (M : ℤ) - KPop < (G : ℤ) - k then 0
    else ((KPop.choose k * (M - KPop).choose (G - k) : Nat) : ℚ) / (M.choose G : ℚ)

/-- The events that one guard set decides. -/
inductive SingleEvent
  | d1
  | d2
deriving DecidableEq, Repr

/-- What the positions that are drawn for every session contribute. -/
def SingleEvent.fresh (event : SingleEvent) (f : ℚ) : ℚ :=
  match event with
  | .d1 => f
  | .d2 => f ^ 3

def pGuardOnly (event : SingleEvent) (kA G : Nat) (f : ℚ) : ℚ :=
  let ratioA := (kA : ℚ) / (G : ℚ)
  ratioA * event.fresh f

structure GuardRow where
  kA : Nat
  kB : Option Nat
  drawProb : ℚ
  pGuardOnly : ℚ
  pSession : ℚ
  n50 : Option Nat
  pDisclosure : List ℚ

structure GuardSummary where
  pClean : ℚ
  pAnyMaliciousGuard : ℚ
  ePSession : ℚ
  pN50BelowBadBar : ℚ

section
variable (log log1p expm1 : ℚ → ℚ) (M G : Nat) (f rho : ℚ) (nSessionsGrid : List Nat)

def guardRow (kA : Nat) (kB : Option Nat) (prob pg : ℚ) : GuardRow :=
  let pSession := applyRho pg f rho
  ⟨kA, kB, prob, pg, pSession, sessionsToThreshold log log1p pSession (1 / 2),
    nSessionsGrid.map (cumulativeProb log1p expm1 pSession)⟩

/-- The malicious nodes of the population. -/
def kPop : Nat := (pyRound (f * M)).toNat

def guardPolicyDistributionSingle (event : SingleEvent) : List GuardRow :=
  let pmf := hypergeomPmf M (kPop M f) G
  (List.range (G + 1)).filterMap fun kA =>
    let prob := pmf.getD kA 0
    if prob ≤ 0 then none
    else some (guardRow log log1p expm1 f rho nSessionsGrid kA none prob (pGuardOnly event kA G f))

def guardPolicyDistributionD3 : List GuardRow :=
  let pmf := hypergeomPmf M (kPop M f) G
  (List.range (G + 1)).flatMap fun kA => (List.range (G + 1)).filterMap fun kB =>
    let prob := pmf.getD kA 0 * pmf.getD kB 0
    if prob ≤ 0 then none
    else some (guardRow log log1p expm1 f rho nSessionsGrid kA (some kB) prob
      ((kA : ℚ) / (G : ℚ) * ((kB : ℚ) / (G : ℚ)) * f ^ 5))

end

def GuardRow.below (bar : Nat) (r : GuardRow) : Bool :=
  match r.n50 with
  | some n50 => decide (n50 ≤ bar)
  | none => false

def summarize (rows : List GuardRow) : GuardSummary :=
  let pClean := ((rows.filter (·.n50 = none)).map (·.drawProb)).sum
  let badBar := 10000
  ⟨pClean, 1 - pClean, (rows.map fun r => r.drawProb * r.pSession).sum,
    ((rows.filter (GuardRow.below badBar)).map (·.drawProb)).sum⟩

/-! The distribution of the draws. -/

/-- The chance of `k` malicious guards. -/
def guardProb (M KPop G k : Nat) : ℚ :=
  ((KPop.choose k * (M - KPop).choose (G - k) : Nat) : ℚ) / (M.choose G : ℚ)

variable {M KPop G : Nat}

theorem guardProb_nonneg (k : Nat) : 0 ≤ guardProb M KPop G k :=
  div_nonneg (Nat.cast_nonneg _) (Nat.cast_nonneg _)

/-- The test in the loop only finds what is zero anyway. -/
theorem hypergeomPmf_getD (h : KPop ≤ M) {k : Nat} (hk : k ≤ G) :
    (hypergeomPmf M KPop G).getD k 0 = guardProb M KPop G k := by
  have hlt : k < G + 1 := Nat.lt_succ_of_le hk
  unfold hypergeomPmf guardProb
  rw [List.getD_eq_getElem?_getD, List.getElem?_map, List.getElem?_range hlt, Option.map_some,
    Option.getD_some]
  split
  · rename_i hzero
    cases hzero with
    | inl hmany => rw [Nat.choose_eq_zero_of_lt hmany, Nat.zero_mul, Nat.cast_zero, zero_div]
    | inr hfew =>
      rw [Nat.choose_eq_zero_of_lt (by omega : M - KPop < G - k), Nat.mul_zero, Nat.cast_zero,
        zero_div]
  · rfl

theorem sum_range_eq (n : Nat) (g : Nat → ℚ) :
    ((List.range n).map g).sum = ∑ k ∈ Finset.range n, g k := by
  induction n with
  | zero => rfl
  | succ n ih => rw [List.sum_range_succ, ih, Finset.sum_range_succ]

theorem choose_sum (h : KPop ≤ M) :
    ∑ k ∈ Finset.range (G + 1), KPop.choose k * (M - KPop).choose (G - k) = M.choose G := by
  have hsum := Nat.add_choose_eq KPop (M - KPop) G
  rw [Nat.add_sub_cancel' h] at hsum
  rw [hsum, Finset.Nat.sum_antidiagonal_eq_sum_range_succ
    (fun i j => KPop.choose i * (M - KPop).choose j)]

theorem guardProb_sum (h : KPop ≤ M) (hG : G ≤ M) :
    ∑ k ∈ Finset.range (G + 1), guardProb M KPop G k = 1 := by
  unfold guardProb
  rw [← Finset.sum_div, ← Nat.cast_sum, choose_sum h]
  exact div_self (Nat.cast_ne_zero.mpr (Nat.choose_pos hG).ne')

/-- A guard that is malicious is one of the malicious nodes, with the others of the set from the
rest of the population. -/
theorem weighted_choose_sum (h : KPop ≤ M) (hG : 1 ≤ G) :
    M * ∑ k ∈ Finset.range (G + 1), k * (KPop.choose k * (M - KPop).choose (G - k)) =
      KPop * (G * M.choose G) := by
  obtain ⟨g, rfl⟩ := Nat.exists_eq_add_of_le' hG
  cases KPop with
  | zero =>
    rw [Nat.zero_mul, Nat.mul_eq_zero]
    right
    apply Finset.sum_eq_zero
    intro k _
    cases k with
    | zero => rw [Nat.zero_mul]
    | succ k => rw [Nat.choose_zero_succ, Nat.zero_mul, Nat.mul_zero]
  | succ K =>
    obtain ⟨m, rfl⟩ := Nat.exists_eq_add_of_le' (le_trans (Nat.succ_pos K) h)
    rw [Finset.sum_range_succ', Nat.zero_mul, Nat.add_zero]
    have hterm : ∀ k ∈ Finset.range (g + 1), (k + 1) *
        ((K + 1).choose (k + 1) * (m + 1 - (K + 1)).choose (g + 1 - (k + 1))) =
          (K + 1) * (K.choose k * (m - K).choose (g - k)) := by
      intro k _
      rw [Nat.add_sub_add_right, Nat.add_sub_add_right, ← mul_assoc, Nat.mul_comm (k + 1),
        ← Nat.add_one_mul_choose_eq, mul_assoc]
    rw [Finset.sum_congr rfl hterm, ← Finset.mul_sum, choose_sum (Nat.le_of_succ_le_succ h),
      Nat.mul_comm (g + 1), ← Nat.add_one_mul_choose_eq]
    ring

theorem guardProb_mean (h : KPop ≤ M) (hG : 1 ≤ G) (hGM : G ≤ M) :
    ∑ k ∈ Finset.range (G + 1), guardProb M KPop G k * ((k : ℚ) / (G : ℚ)) =
      (KPop : ℚ) / (M : ℚ) := by
  have hG' : (G : ℚ) ≠ 0 := Nat.cast_ne_zero.mpr (Nat.ne_zero_of_lt hG)
  have hM' : (M : ℚ) ≠ 0 := Nat.cast_ne_zero.mpr (Nat.ne_zero_of_lt (lt_of_lt_of_le hG hGM))
  have hchoose : (M.choose G : ℚ) ≠ 0 := Nat.cast_ne_zero.mpr (Nat.choose_pos hGM).ne'
  have hsum : (M : ℚ) * ∑ k ∈ Finset.range (G + 1),
      (k : ℚ) * ((KPop.choose k * (M - KPop).choose (G - k) : Nat) : ℚ) =
        (KPop : ℚ) * ((G : ℚ) * (M.choose G : ℚ)) := by
    exact_mod_cast weighted_choose_sum h hG
  calc
    _ = (∑ k ∈ Finset.range (G + 1),
          (k : ℚ) * ((KPop.choose k * (M - KPop).choose (G - k) : Nat) : ℚ)) /
            ((G : ℚ) * (M.choose G : ℚ)) := by
      rw [Finset.sum_div]
      apply Finset.sum_congr rfl
      intro k _
      unfold guardProb
      field_simp
    _ = (KPop : ℚ) / (M : ℚ) := by
      rw [div_eq_div_iff (mul_ne_zero hG' hchoose) hM', mul_comm, hsum]

/-- Whether a guard set of `k` malicious guards has any. -/
def tainted (k : Nat) : ℚ := if k = 0 then 0 else 1

theorem guardProb_tainted (h : KPop ≤ M) (hGM : G ≤ M) :
    ∑ k ∈ Finset.range (G + 1), guardProb M KPop G k * tainted k = 1 - guardProb M KPop G 0 := by
  have hsum := guardProb_sum h hGM
  rw [Finset.sum_range_succ'] at hsum ⊢
  have hrest : ∀ k ∈ Finset.range G,
      guardProb M KPop G (k + 1) * tainted (k + 1) = guardProb M KPop G (k + 1) := fun k _ => by
    rw [tainted, if_neg (Nat.succ_ne_zero k), mul_one]
  have hnone : guardProb M KPop G 0 * tainted 0 = 0 := by rw [tainted, if_pos rfl, mul_zero]
  rw [Finset.sum_congr rfl hrest, hnone]
  linarith

/-! Sums over the rows. -/

theorem sum_rows {ι : Type*} (outcomes : List ι) {prob : ι → ℚ} {row : ι → GuardRow}
    (hrow : ∀ k, (row k).drawProb = prob k) (hprob : ∀ k ∈ outcomes, 0 ≤ prob k)
    (g : GuardRow → ℚ) :
    ((outcomes.filterMap fun k => if prob k ≤ 0 then none else some (row k)).map
      fun r => r.drawProb * g r).sum = (outcomes.map fun k => prob k * g (row k)).sum := by
  induction outcomes with
  | nil => rfl
  | cons k outcomes ih =>
    have htail := ih fun k hk => hprob k (List.mem_cons_of_mem _ hk)
    rw [List.map_cons, List.sum_cons, ← htail, List.filterMap_cons]
    by_cases hk : prob k ≤ 0
    · have hzero : prob k = 0 := le_antisymm hk (hprob k List.mem_cons_self)
      simp only [if_pos hk]
      rw [hzero, zero_mul, zero_add]
    · simp only [if_neg hk, List.map_cons, List.sum_cons, hrow]

theorem sum_flatMap {ι : Type*} (outcomes : List ι) (rows : ι → List GuardRow)
    (g : GuardRow → ℚ) :
    ((outcomes.flatMap rows).map g).sum = (outcomes.map fun k => ((rows k).map g).sum).sum := by
  induction outcomes with
  | nil => rfl
  | cons k outcomes ih =>
    rw [List.flatMap_cons, List.map_append, List.sum_append, ih, List.map_cons, List.sum_cons]

/-- The weight of the rows that are not clean. -/
def GuardRow.dirty (r : GuardRow) : ℚ := if r.n50 = none then 0 else 1

theorem pClean_eq (rows : List GuardRow) :
    (summarize rows).pClean =
      (rows.map fun r => r.drawProb * 1).sum - (rows.map fun r => r.drawProb * r.dirty).sum := by
  change ((rows.filter fun r => decide (r.n50 = none)).map fun r => r.drawProb).sum = _
  induction rows with
  | nil => simp
  | cons r rows ih =>
    simp only [List.map_cons, List.sum_cons, List.filter_cons]
    by_cases hclean : r.n50 = none
    · simp only [hclean, decide_true, if_true, List.map_cons, List.sum_cons, ih, GuardRow.dirty]
      ring
    · simp only [hclean, decide_false, Bool.false_eq_true, if_false, ih, GuardRow.dirty]
      ring

variable {log log1p expm1 : ℚ → ℚ} {f rho : ℚ} {nSessionsGrid : List Nat}

theorem pyRound_le {q : ℚ} {n : Nat} (h : q ≤ n) : pyRound q ≤ n := by
  have hfloor : ⌊q⌋ ≤ n := by
    have hle := Int.floor_le_floor h
    rwa [Int.floor_natCast] at hle
  have hup (hfrac : ¬ q - ⌊q⌋ < 1 / 2) : ⌊q⌋ + 1 ≤ n := by
    have hlt : (⌊q⌋ : ℚ) < n := by linarith [not_lt.mp hfrac]
    exact_mod_cast hlt
  unfold pyRound
  split
  · exact hfloor
  · rename_i hfrac
    split
    · exact hup hfrac
    · split
      · exact hfloor
      · exact hup hfrac

theorem kPop_le (hf1 : f ≤ 1) : kPop M f ≤ M := by
  have hle : f * M ≤ (M : ℚ) := mul_le_of_le_one_left (Nat.cast_nonneg M) hf1
  have := pyRound_le hle
  unfold kPop
  omega

/-- A sum over the table of one guard set is a sum over the draws. -/
theorem single_sum (hf1 : f ≤ 1) (event : SingleEvent) (g : GuardRow → ℚ) :
    ((guardPolicyDistributionSingle log log1p expm1 M G f rho nSessionsGrid event).map
      fun r => r.drawProb * g r).sum =
        ∑ k ∈ Finset.range (G + 1), guardProb M (kPop M f) G k *
          g (guardRow log log1p expm1 f rho nSessionsGrid k none (guardProb M (kPop M f) G k)
            (pGuardOnly event k G f)) := by
  have hpmf : ∀ k ∈ List.range (G + 1), (hypergeomPmf M (kPop M f) G).getD k 0 =
      guardProb M (kPop M f) G k := fun k hk =>
    hypergeomPmf_getD (kPop_le hf1) (Nat.le_of_lt_succ (List.mem_range.mp hk))
  unfold guardPolicyDistributionSingle
  rw [← sum_range_eq]
  refine (sum_rows (List.range (G + 1)) ?_ ?_ g).trans ?_
  · intro k
    rfl
  · intro k hk
    rw [hpmf k hk]
    exact guardProb_nonneg k
  · congr 1
    apply List.map_congr_left
    intro k hk
    rw [hpmf k hk]

theorem d3_sum (hf1 : f ≤ 1) (g : GuardRow → ℚ) :
    ((guardPolicyDistributionD3 log log1p expm1 M G f rho nSessionsGrid).map
      fun r => r.drawProb * g r).sum =
        ∑ a ∈ Finset.range (G + 1), ∑ b ∈ Finset.range (G + 1),
          guardProb M (kPop M f) G a * guardProb M (kPop M f) G b *
            g (guardRow log log1p expm1 f rho nSessionsGrid a (some b)
              (guardProb M (kPop M f) G a * guardProb M (kPop M f) G b)
              ((a : ℚ) / (G : ℚ) * ((b : ℚ) / (G : ℚ)) * f ^ 5)) := by
  have hpmf : ∀ k ∈ List.range (G + 1), (hypergeomPmf M (kPop M f) G).getD k 0 =
      guardProb M (kPop M f) G k := fun k hk =>
    hypergeomPmf_getD (kPop_le hf1) (Nat.le_of_lt_succ (List.mem_range.mp hk))
  unfold guardPolicyDistributionD3
  rw [sum_flatMap, ← sum_range_eq]
  congr 1
  apply List.map_congr_left
  intro a ha
  rw [← sum_range_eq]
  refine (sum_rows (List.range (G + 1)) ?_ ?_ g).trans ?_
  · intro b
    rfl
  · intro b hb
    rw [hpmf a ha, hpmf b hb]
    exact mul_nonneg (guardProb_nonneg a) (guardProb_nonneg b)
  · congr 1
    apply List.map_congr_left
    intro b hb
    rw [hpmf a ha, hpmf b hb]

/-! The summaries. -/

theorem single_ePSession (hf1 : f ≤ 1) (hG : 1 ≤ G) (hGM : G ≤ M) (event : SingleEvent) :
    (summarize (guardPolicyDistributionSingle log log1p expm1 M G f rho nSessionsGrid
      event)).ePSession = applyRho ((kPop M f : ℚ) / (M : ℚ) * event.fresh f) f rho := by
  have hle : kPop M f ≤ M := kPop_le hf1
  refine (single_sum hf1 event GuardRow.pSession).trans ?_
  calc
    _ = ∑ k ∈ Finset.range (G + 1), (guardProb M (kPop M f) G k * (rho * f) +
          guardProb M (kPop M f) G k * ((k : ℚ) / (G : ℚ)) * ((1 - rho) * event.fresh f)) := by
      apply Finset.sum_congr rfl
      intro k _
      simp only [guardRow, applyRho, pGuardOnly]
      ring
    _ = _ := by
      rw [Finset.sum_add_distrib, ← Finset.sum_mul, ← Finset.sum_mul, guardProb_sum hle hGM,
        guardProb_mean hle hG hGM, applyRho]
      ring

theorem d3_ePSession (hf1 : f ≤ 1) (hG : 1 ≤ G) (hGM : G ≤ M) :
    (summarize (guardPolicyDistributionD3 log log1p expm1 M G f rho nSessionsGrid)).ePSession =
      applyRho (((kPop M f : ℚ) / (M : ℚ)) ^ 2 * f ^ 5) f rho := by
  have hle : kPop M f ≤ M := kPop_le hf1
  refine (d3_sum hf1 GuardRow.pSession).trans ?_
  calc
    _ = ∑ a ∈ Finset.range (G + 1), ∑ b ∈ Finset.range (G + 1),
          (guardProb M (kPop M f) G a * guardProb M (kPop M f) G b * (rho * f) +
            guardProb M (kPop M f) G a * ((a : ℚ) / (G : ℚ)) *
              (guardProb M (kPop M f) G b * ((b : ℚ) / (G : ℚ))) * ((1 - rho) * f ^ 5)) := by
      apply Finset.sum_congr rfl
      intro a _
      apply Finset.sum_congr rfl
      intro b _
      simp only [guardRow, applyRho]
      ring
    _ = _ := by
      simp only [Finset.sum_add_distrib, ← Finset.sum_mul]
      rw [← Finset.sum_mul_sum, ← Finset.sum_mul_sum, guardProb_sum hle hGM,
        guardProb_mean hle hG hGM, applyRho]
      ring

/-- A row is clean when nothing is left of its probability, the correlation included. -/
theorem dirty_guardRow (kA : Nat) (kB : Option Nat) (prob pg : ℚ) :
    (guardRow log log1p expm1 f rho nSessionsGrid kA kB prob pg).dirty =
      if applyRho pg f rho ≤ 0 then 0 else 1 := by
  have hnone : sessionsToThreshold log log1p (applyRho pg f rho) (1 / 2) = none ↔
      applyRho pg f rho ≤ 0 := by
    unfold sessionsToThreshold
    split
    · rename_i hle
      exact iff_of_true rfl hle
    · rename_i hle
      split <;> simp [hle]
  simp only [GuardRow.dirty, guardRow, hnone]

theorem SingleEvent.fresh_pos (hf : 0 < f) (event : SingleEvent) : 0 < event.fresh f := by
  cases event with
  | d1 => exact hf
  | d2 => exact pow_pos hf 3

theorem ratio_le_zero_iff (hG : 1 ≤ G) (k : Nat) {w : ℚ} (hw : 0 < w) :
    (k : ℚ) / (G : ℚ) * w ≤ 0 ↔ k = 0 := by
  have hG' : (0 : ℚ) < G := by exact_mod_cast hG
  rw [← not_lt, mul_pos_iff_of_pos_right hw, not_lt, div_le_iff₀ hG', zero_mul]
  exact_mod_cast Nat.le_zero

/-- Without correlation a row is clean when one of its guard sets is. -/
theorem dirty_uncorrelated (hG : 1 ≤ G) (hf : 0 < f) (event : SingleEvent) (k : Nat) (prob : ℚ) :
    (guardRow log log1p expm1 f 0 nSessionsGrid k none prob (pGuardOnly event k G f)).dirty =
      tainted k := by
  rw [dirty_guardRow, applyRho, zero_mul, zero_add, sub_zero, one_mul, pGuardOnly, tainted]
  simp only [ratio_le_zero_iff hG k (event.fresh_pos hf)]

theorem dirty_uncorrelated_d3 (hG : 1 ≤ G) (hf : 0 < f) (a b : Nat) (prob : ℚ) :
    (guardRow log log1p expm1 f 0 nSessionsGrid a (some b) prob
      ((a : ℚ) / (G : ℚ) * ((b : ℚ) / (G : ℚ)) * f ^ 5)).dirty = tainted a * tainted b := by
  rw [dirty_guardRow, applyRho, zero_mul, zero_add, sub_zero, one_mul]
  by_cases hb : b = 0
  · subst hb
    simp [tainted]
  · have hG' : (0 : ℚ) < G := by exact_mod_cast hG
    have hb' : (0 : ℚ) < b := by exact_mod_cast Nat.pos_of_ne_zero hb
    have hw : 0 < (b : ℚ) / (G : ℚ) * f ^ 5 := mul_pos (div_pos hb' hG') (pow_pos hf 5)
    rw [mul_assoc]
    simp only [ratio_le_zero_iff hG a hw, tainted, if_neg hb, mul_one]

/-- With correlation no row is. -/
theorem dirty_correlated (hf : 0 < f) (hrho : 0 < rho) (hrho1 : rho ≤ 1) (kA : Nat)
    (kB : Option Nat) (prob : ℚ) {pg : ℚ} (hpg : 0 ≤ pg) :
    (guardRow log log1p expm1 f rho nSessionsGrid kA kB prob pg).dirty = 1 := by
  have hpos : 0 < applyRho pg f rho := by
    have hshared := mul_pos hrho hf
    have hrest := mul_nonneg (sub_nonneg.mpr hrho1) hpg
    unfold applyRho
    linarith
  rw [dirty_guardRow, if_neg (not_le.mpr hpos)]

theorem single_pClean (hf1 : f ≤ 1) (hGM : G ≤ M) (event : SingleEvent) :
    (summarize (guardPolicyDistributionSingle log log1p expm1 M G f rho nSessionsGrid
      event)).pClean = 1 - ∑ k ∈ Finset.range (G + 1), guardProb M (kPop M f) G k *
        (guardRow log log1p expm1 f rho nSessionsGrid k none (guardProb M (kPop M f) G k)
          (pGuardOnly event k G f)).dirty := by
  rw [pClean_eq, single_sum hf1 event (fun _ => 1), single_sum hf1 event GuardRow.dirty]
  simp only [mul_one]
  rw [guardProb_sum (kPop_le hf1) hGM]

theorem d3_pClean (hf1 : f ≤ 1) (hGM : G ≤ M) :
    (summarize (guardPolicyDistributionD3 log log1p expm1 M G f rho nSessionsGrid)).pClean =
      1 - ∑ a ∈ Finset.range (G + 1), ∑ b ∈ Finset.range (G + 1),
        guardProb M (kPop M f) G a * guardProb M (kPop M f) G b *
          (guardRow log log1p expm1 f rho nSessionsGrid a (some b)
            (guardProb M (kPop M f) G a * guardProb M (kPop M f) G b)
            ((a : ℚ) / (G : ℚ) * ((b : ℚ) / (G : ℚ)) * f ^ 5)).dirty := by
  rw [pClean_eq, d3_sum hf1 (fun _ => 1), d3_sum hf1 GuardRow.dirty]
  simp only [mul_one]
  rw [← Finset.sum_mul_sum, guardProb_sum (kPop_le hf1) hGM, one_mul]

/-- A session is expected to disclose what it would without guards, but for the rounding of the
malicious share; a summary that is called clean is so without correlation only. -/
theorem guard_policy_summary (log log1p expm1 : ℚ → ℚ) (nSessionsGrid : List Nat) (hf : 0 < f)
    (hf1 : f ≤ 1) (hrho : 0 ≤ rho) (hrho1 : rho ≤ 1) (hG : 1 ≤ G) (hGM : G ≤ M) :
    let share : ℚ := (kPop M f : ℚ) / (M : ℚ)
    let clean : ℚ := ((M - kPop M f).choose G : ℚ) / (M.choose G : ℚ)
    let single := fun event =>
      summarize (guardPolicyDistributionSingle log log1p expm1 M G f rho nSessionsGrid event)
    let d3 := summarize (guardPolicyDistributionD3 log log1p expm1 M G f rho nSessionsGrid)
    (∀ event, (single event).ePSession = applyRho (share * event.fresh f) f rho) ∧
      d3.ePSession = applyRho (share ^ 2 * f ^ 5) f rho ∧
      (∀ event, (single event).pClean = if rho = 0 then clean else 0) ∧
      d3.pClean = if rho = 0 then 1 - (1 - clean) ^ 2 else 0 := by
  intro share clean single d3
  have hle : kPop M f ≤ M := kPop_le hf1
  have hclean : guardProb M (kPop M f) G 0 = clean := by
    simp [guardProb, clean]
  refine ⟨single_ePSession hf1 hG hGM, d3_ePSession hf1 hG hGM, fun event => ?_, ?_⟩
  · refine (single_pClean hf1 hGM event).trans ?_
    split
    · rename_i hzero
      subst hzero
      simp only [dirty_uncorrelated hG hf]
      rw [guardProb_tainted hle hGM, hclean, sub_sub_cancel]
    · rename_i hpos
      have hdirty (k : Nat) (prob : ℚ) : (guardRow log log1p expm1 f rho nSessionsGrid k none prob
          (pGuardOnly event k G f)).dirty = 1 :=
        dirty_correlated hf (lt_of_le_of_ne hrho (Ne.symm hpos)) hrho1 k none prob
          (mul_nonneg (div_nonneg (Nat.cast_nonneg _) (Nat.cast_nonneg _)) (event.fresh_pos hf).le)
      simp only [hdirty, mul_one]
      rw [guardProb_sum hle hGM, sub_self]
  · refine (d3_pClean hf1 hGM).trans ?_
    split
    · rename_i hzero
      subst hzero
      have hterm (a b : Nat) : guardProb M (kPop M f) G a * guardProb M (kPop M f) G b *
          (tainted a * tainted b) = guardProb M (kPop M f) G a * tainted a *
            (guardProb M (kPop M f) G b * tainted b) := by ring
      simp only [dirty_uncorrelated_d3 hG hf, hterm]
      rw [← Finset.sum_mul_sum, guardProb_tainted hle hGM, hclean, sq]
    · rename_i hpos
      have hdirty (a b : Nat) (prob : ℚ) : (guardRow log log1p expm1 f rho nSessionsGrid a (some b)
          prob ((a : ℚ) / (G : ℚ) * ((b : ℚ) / (G : ℚ)) * f ^ 5)).dirty = 1 := by
        apply dirty_correlated hf (lt_of_le_of_ne hrho (Ne.symm hpos)) hrho1
        positivity
      simp only [hdirty, mul_one]
      rw [← Finset.sum_mul_sum, guardProb_sum hle hGM, one_mul, sub_self]

/-- The defaults of the script, with the correlation that is not zero. -/
theorem guard_policy_summary_default :
    (summarize (guardPolicyDistributionD3 id id id 100 3 (1 / 10) (1 / 100) [])).pClean = 0 := by
  have hclean := (guard_policy_summary id id id [] (f := 1 / 10) (G := 3) (M := 100)
    (by norm_num) (by norm_num) (by norm_num : (0 : ℚ) ≤ 1 / 100) (by norm_num) (by norm_num)
    (by norm_num)).2.2.2
  rwa [if_neg (by norm_num)] at hclean

end AnonSecNet.Evaluation
