import Mathlib.Algebra.Order.BigOperators.Ring.Finset
import Mathlib.Algebra.Order.Field.Basic
import Mathlib.Algebra.Order.Ring.Rat
import Mathlib.Order.Interval.Set.Basic
import Mathlib.Tactic.FieldSimp
import Mathlib.Tactic.Linarith

/-! The analytic models of `asn_correlated_disclosure.py` over the rationals: `f` is the share of
compromised operators, `rho` the correlation between `k` positions. -/
namespace AnonSecNet.Evaluation

/-- What a model of correlation has to be: between independent positions and one operator that
holds them all. -/
structure Interpolates (f : ℚ) (k : Nat) (prob : ℚ → ℚ) : Prop where
  independent : prob 0 = f ^ k
  shared : prob 1 = f
  mono : MonotoneOn prob (Set.Icc 0 1)

theorem Interpolates.bounds {f : ℚ} {k : Nat} {prob : ℚ → ℚ} (h : Interpolates f k prob)
    {rho : ℚ} (hrho : rho ∈ Set.Icc (0 : ℚ) 1) : f ^ k ≤ prob rho ∧ prob rho ≤ f := by
  have hzero : (0 : ℚ) ∈ Set.Icc (0 : ℚ) 1 := ⟨le_rfl, zero_le_one⟩
  have hone : (1 : ℚ) ∈ Set.Icc (0 : ℚ) 1 := ⟨zero_le_one, le_rfl⟩
  constructor
  · rw [← h.independent]
    exact h.mono hzero hrho hrho.1
  · calc
      prob rho ≤ prob 1 := h.mono hrho hone hrho.2
      _ = f := h.shared

/-! The three functions. -/

def analyticSharedOperator (f rho : ℚ) (k : Nat) : ℚ := rho * f + (1 - rho) * f ^ k

def analyticBetaMixture (f rho : ℚ) (k : Nat) : ℚ :=
  if rho ≤ 0 then f ^ k
  else if 1 ≤ rho then f
  else
    let s := (1 - rho) / rho
    let alpha := f * s
    let beta := (1 - f) * s
    (List.range k).foldl
      (fun (val : ℚ) (i : Nat) => val * ((alpha + i) / (alpha + beta + i))) 1

def crossoverCutoff : ℚ := 1 / 10 ^ 300

def crossoverRho (f : ℚ) (k : Nat) (baselineProb : ℚ) : Option ℚ :=
  let fk := f ^ k
  let denom := f - fk
  if |denom| < crossoverCutoff then none
  else
    let rhoStar := (baselineProb - fk) / denom
    if rhoStar < 0 ∨ 1 < rhoStar then none else some rhoStar

variable {f rho : ℚ} {k : Nat}

/-! The shared operator. -/

theorem pow_le_share (hf : f ∈ Set.Icc (0 : ℚ) 1) (hk : 1 ≤ k) : f ^ k ≤ f :=
  pow_le_of_le_one hf.1 hf.2 (Nat.one_le_iff_ne_zero.mp hk)

theorem sharedOperator_interpolates (hf : f ∈ Set.Icc (0 : ℚ) 1) (hk : 1 ≤ k) :
    Interpolates f k fun rho => analyticSharedOperator f rho k where
  independent := by simp [analyticSharedOperator]
  shared := by simp [analyticSharedOperator]
  mono rho _ rho' _ hle := by
    have hgain := mul_le_mul_of_nonneg_right hle (sub_nonneg.mpr (pow_le_share hf hk))
    unfold analyticSharedOperator
    linarith

/-! The beta mixture: each factor after the first goes from `f` up to 1. -/

/-- The factor of position `i`, with the fraction of `alpha` and `beta` reduced. -/
def betaFactor (f : ℚ) (i : Nat) (rho : ℚ) : ℚ := (f * (1 - rho) + i * rho) / (1 - rho + i * rho)

theorem betaFactor_denom_pos (i : Nat) (hrho : rho ∈ Set.Icc (0 : ℚ) 1) :
    0 < 1 - rho + ((i + 1 : Nat) : ℚ) * rho := by
  have hi : 0 ≤ (i : ℚ) * rho := mul_nonneg (Nat.cast_nonneg i) hrho.1
  push_cast
  linarith

theorem betaFactor_mono (hf : f ≤ 1) (i : Nat) :
    MonotoneOn (betaFactor f (i + 1)) (Set.Icc 0 1) := by
  intro rho hrho rho' hrho' hle
  unfold betaFactor
  rw [div_le_div_iff₀ (betaFactor_denom_pos i hrho) (betaFactor_denom_pos i hrho')]
  have hgain : 0 ≤ ((i + 1 : Nat) : ℚ) * ((1 - f) * (rho' - rho)) :=
    mul_nonneg (Nat.cast_nonneg _) (mul_nonneg (sub_nonneg.mpr hf) (sub_nonneg.mpr hle))
  linarith

theorem betaFactor_zero (i : Nat) : betaFactor f i 0 = f := by simp [betaFactor]

theorem betaFactor_one (i : Nat) : betaFactor f (i + 1) 1 = 1 := by
  have hne : ((i + 1 : Nat) : ℚ) ≠ 0 := Nat.cast_ne_zero.mpr (Nat.succ_ne_zero i)
  unfold betaFactor
  rw [sub_self, mul_zero, zero_add, mul_one, div_self hne]

theorem betaFactor_nonneg (hf : f ∈ Set.Icc (0 : ℚ) 1) (i : Nat)
    (hrho : rho ∈ Set.Icc (0 : ℚ) 1) : 0 ≤ betaFactor f (i + 1) rho := by
  calc
    0 ≤ f := hf.1
    _ = betaFactor f (i + 1) 0 := (betaFactor_zero _).symm
    _ ≤ betaFactor f (i + 1) rho := betaFactor_mono hf.2 i ⟨le_rfl, zero_le_one⟩ hrho hrho.1

theorem foldl_mul_eq_prod (factor : Nat → ℚ) (k : Nat) :
    (List.range k).foldl (fun val i => val * factor i) 1 = ∏ i ∈ Finset.range k, factor i := by
  induction k with
  | zero => rfl
  | succ k ih => rw [List.range_succ, List.foldl_append, ih, Finset.prod_range_succ]; rfl

/-- The fraction of the loop, short of the two ends. -/
theorem factor_eq (hrho : rho ≠ 0) (i : Nat) :
    (f * ((1 - rho) / rho) + i) / (f * ((1 - rho) / rho) + (1 - f) * ((1 - rho) / rho) + i)
      = betaFactor f i rho := by
  have hnum : f * ((1 - rho) / rho) + i = (f * (1 - rho) + i * rho) / rho := by field_simp
  have hden : f * ((1 - rho) / rho) + (1 - f) * ((1 - rho) / rho) + i
      = (1 - rho + i * rho) / rho := by
    field_simp
    ring
  rw [hnum, hden, div_div_div_cancel_right₀ hrho]
  rfl

/-- The model on the whole interval; the branches for the two ends are its values there. -/
theorem betaMixture_eq_prod (hrho : rho ∈ Set.Icc (0 : ℚ) 1) (k : Nat) :
    analyticBetaMixture f rho (k + 1) = f * ∏ i ∈ Finset.range k, betaFactor f (i + 1) rho := by
  unfold analyticBetaMixture
  split
  · rename_i hzero
    rw [le_antisymm hzero hrho.1]
    simp only [betaFactor_zero, Finset.prod_const, Finset.card_range]
    exact pow_succ' f k
  · rename_i hpos
    split
    · rename_i hone
      rw [le_antisymm hrho.2 hone]
      simp only [betaFactor_one, Finset.prod_const_one, mul_one]
    · rename_i hlt
      have hne : rho ≠ 0 := (not_le.mp hpos).ne'
      dsimp only
      rw [foldl_mul_eq_prod, Finset.prod_range_succ']
      simp only [factor_eq hne]
      have hfirst : betaFactor f 0 rho = f := by
        have hrest : 1 - rho ≠ 0 := (sub_pos.mpr (not_le.mp hlt)).ne'
        simp [betaFactor, hrest]
      rw [hfirst, mul_comm]

theorem betaMixture_interpolates (hf : f ∈ Set.Icc (0 : ℚ) 1) (hk : 1 ≤ k) :
    Interpolates f k fun rho => analyticBetaMixture f rho k where
  independent := by simp [analyticBetaMixture]
  shared := by simp [analyticBetaMixture]
  mono rho hrho rho' hrho' hle := by
    obtain ⟨k, rfl⟩ := Nat.exists_eq_add_of_le' hk
    dsimp only
    rw [betaMixture_eq_prod hrho, betaMixture_eq_prod hrho']
    apply mul_le_mul_of_nonneg_left _ hf.1
    apply Finset.prod_le_prod
    · exact fun i _ => betaFactor_nonneg hf i hrho
    · exact fun i _ => betaFactor_mono hf.2 i hrho hrho' hle

/-- For one or two positions there is only one such model. -/
theorem models_agree (hk : 1 ≤ k) (hk2 : k ≤ 2) (hrho : rho ∈ Set.Icc (0 : ℚ) 1) :
    analyticSharedOperator f rho k = analyticBetaMixture f rho k := by
  obtain ⟨k, rfl⟩ := Nat.exists_eq_add_of_le' hk
  rw [betaMixture_eq_prod hrho]
  unfold analyticSharedOperator
  have hcases : k = 0 ∨ k = 1 := by omega
  rcases hcases with rfl | rfl
  · simp
    ring
  · rw [Finset.prod_range_one]
    simp [betaFactor]
    ring

/-! The crossover. -/

theorem sharedOperator_eq_iff (hf : f - f ^ k ≠ 0) (b : ℚ) :
    analyticSharedOperator f rho k = b ↔ rho = (b - f ^ k) / (f - f ^ k) := by
  rw [eq_div_iff hf]
  unfold analyticSharedOperator
  constructor
  · intro h
    linarith
  · intro h
    linarith

theorem crossoverRho_eq_some_iff (hf : crossoverCutoff ≤ f - f ^ k) (b : ℚ) :
    crossoverRho f k b = some rho ↔
      rho ∈ Set.Icc (0 : ℚ) 1 ∧ analyticSharedOperator f rho k = b := by
  have hcutoff : 0 < crossoverCutoff := one_div_pos.mpr (pow_pos (by norm_num) 300)
  have hpos : 0 < f - f ^ k := hcutoff.trans_le hf
  rw [sharedOperator_eq_iff hpos.ne']
  unfold crossoverRho
  dsimp only
  rw [abs_of_pos hpos, if_neg (not_lt.mpr hf)]
  split
  · rename_i hout
    constructor
    · intro h
      cases h
    · rintro ⟨⟨hlo, hhi⟩, rfl⟩
      rcases hout with hout | hout
      · exact absurd hlo (not_le.mpr hout)
      · exact absurd hhi (not_le.mpr hout)
  · rename_i hin
    obtain ⟨hlo, hhi⟩ := not_or.mp hin
    constructor
    · intro h
      obtain rfl := Option.some.inj h
      exact ⟨⟨not_lt.mp hlo, not_lt.mp hhi⟩, rfl⟩
    · rintro ⟨-, rfl⟩
      rfl

/-- Both models stay between `f ^ k` and `f`, grow with the correlation and agree at its ends and
for at most two positions; the crossover is the one correlation at which the first of them takes
the value of a baseline. -/
theorem disclosure_models_consistent (hf : f ∈ Set.Icc (0 : ℚ) 1) (hk : 1 ≤ k) :
    (∀ rho ∈ Set.Icc (0 : ℚ) 1,
        (f ^ k ≤ analyticSharedOperator f rho k ∧ analyticSharedOperator f rho k ≤ f) ∧
          (f ^ k ≤ analyticBetaMixture f rho k ∧ analyticBetaMixture f rho k ≤ f) ∧
          (k ≤ 2 → analyticSharedOperator f rho k = analyticBetaMixture f rho k)) ∧
      MonotoneOn (fun rho => analyticSharedOperator f rho k) (Set.Icc 0 1) ∧
      MonotoneOn (fun rho => analyticBetaMixture f rho k) (Set.Icc 0 1) ∧
      analyticSharedOperator f 0 k = analyticBetaMixture f 0 k ∧
      analyticSharedOperator f 1 k = analyticBetaMixture f 1 k ∧
      (crossoverCutoff ≤ f - f ^ k → ∀ b,
        (∀ rho, crossoverRho f k b = some rho ↔
          rho ∈ Set.Icc (0 : ℚ) 1 ∧ analyticSharedOperator f rho k = b) ∧
        (crossoverRho f k b = none ↔
          ¬ ∃ rho ∈ Set.Icc (0 : ℚ) 1, analyticSharedOperator f rho k = b)) := by
  have hshared := sharedOperator_interpolates hf hk
  have hbeta := betaMixture_interpolates hf hk
  refine ⟨fun rho hrho => ⟨hshared.bounds hrho, hbeta.bounds hrho, fun hk2 =>
    models_agree hk hk2 hrho⟩, hshared.mono, hbeta.mono,
    hshared.independent.trans hbeta.independent.symm,
    hshared.shared.trans hbeta.shared.symm, fun hcutoff b => ?_⟩
  have hsome : ∀ rho, crossoverRho f k b = some rho ↔
      rho ∈ Set.Icc (0 : ℚ) 1 ∧ analyticSharedOperator f rho k = b :=
    fun rho => crossoverRho_eq_some_iff hcutoff b
  refine ⟨hsome, ?_⟩
  rw [Option.eq_none_iff_forall_ne_some]
  constructor
  · rintro hnone ⟨rho, hrho, hvalue⟩
    exact hnone rho ((hsome rho).mpr ⟨hrho, hvalue⟩)
  · intro hnone rho hrho
    exact hnone ⟨rho, (hsome rho).mp hrho⟩

/-- A fifth of the operators and the seven positions of full disclosure. -/
theorem disclosure_models_consistent_sevenPositions :
    (1 / 5 : ℚ) ^ 7 ≤ analyticBetaMixture (1 / 5) (1 / 2) 7 ∧
      crossoverRho (1 / 5) 7 (1 / 125) = some (26 / 651) := by
  have hf : (1 / 5 : ℚ) ∈ Set.Icc (0 : ℚ) 1 := by constructor <;> norm_num
  have hcutoff : crossoverCutoff ≤ (1 / 5 : ℚ) - (1 / 5) ^ 7 := by
    calc
      crossoverCutoff ≤ 1 / 10 :=
        one_div_le_one_div_of_le (by norm_num) (le_self_pow₀ (by norm_num) (by decide))
      _ ≤ (1 / 5 : ℚ) - (1 / 5) ^ 7 := by norm_num
  obtain ⟨hbounds, -, -, -, -, hcrossover⟩ := disclosure_models_consistent hf (by decide : 1 ≤ 7)
  refine ⟨(hbounds (1 / 2) (by constructor <;> norm_num)).2.1.1, ?_⟩
  apply ((hcrossover hcutoff (1 / 125)).1 (26 / 651)).mpr
  refine ⟨by constructor <;> norm_num, ?_⟩
  norm_num [analyticSharedOperator]

end AnonSecNet.Evaluation
