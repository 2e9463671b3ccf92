import AnonSecNet.Evaluation.Sprt

/-! How long the test of `asn_statistical_disclosure.py` takes, and the candidates that
`simulate_bonferroni` tests together. -/
namespace AnonSecNet.Evaluation
open Trials
variable {tpr fpr alpha beta : ℝ}

/-- What a round is expected to add, for matches of probability `p`. -/
noncomputable def meanLlr (p tpr fpr : ℝ) : ℝ :=
  p * llrMatch tpr fpr + (1 - p) * llrNomatch tpr fpr

theorem log_mean_neg {p q : ℝ} (hp : 0 < p) (hp1 : p < 1) (hq : 0 < q) (hq1 : q < 1)
    (hne : p ≠ q) : p * Real.log (q / p) + (1 - p) * Real.log ((1 - q) / (1 - p)) < 0 := by
  have hp' : 0 < 1 - p := by linarith
  have hratio : q / p ≠ 1 := fun heq => hne ((div_eq_one_iff_eq hp.ne').mp heq).symm
  have hfirst : Real.log (q / p) < q / p - 1 := Real.log_lt_sub_one_of_pos (div_pos hq hp) hratio
  have hsecond : Real.log ((1 - q) / (1 - p)) ≤ (1 - q) / (1 - p) - 1 :=
    Real.log_le_sub_one_of_pos (div_pos (by linarith) hp')
  calc
    _ < p * (q / p - 1) + (1 - p) * ((1 - q) / (1 - p) - 1) :=
      add_lt_add_of_lt_of_le (mul_lt_mul_of_pos_left hfirst hp)
        (mul_le_mul_of_nonneg_left hsecond hp'.le)
    _ = 0 := by
      rw [mul_sub, mul_sub, mul_div_cancel₀ _ hp.ne', mul_div_cancel₀ _ hp'.ne']
      ring

theorem OperatingPoint.meanLlr_fpr (h : OperatingPoint tpr fpr alpha beta) (hlt : fpr < tpr) :
    meanLlr fpr tpr fpr < 0 :=
  log_mean_neg h.fpr_pos h.fpr_lt h.tpr_pos h.tpr_lt hlt.ne

theorem OperatingPoint.meanLlr_tpr (h : OperatingPoint tpr fpr alpha beta) (hlt : fpr < tpr) :
    0 < meanLlr tpr tpr fpr := by
  have hneg := log_mean_neg h.tpr_pos h.tpr_lt h.fpr_pos h.fpr_lt hlt.ne'
  have hmatch : llrMatch tpr fpr = -Real.log (fpr / tpr) := by
    rw [← Real.log_inv, inv_div]
    rfl
  have hnomatch : llrNomatch tpr fpr = -Real.log ((1 - fpr) / (1 - tpr)) := by
    rw [← Real.log_inv, inv_div]
    rfl
  unfold meanLlr
  rw [hmatch, hnomatch]
  linarith

theorem OperatingPoint.llrMatch_pos (h : OperatingPoint tpr fpr alpha beta) (hlt : fpr < tpr) :
    0 < llrMatch tpr fpr :=
  Real.log_pos ((one_lt_div h.fpr_pos).mpr hlt)

theorem OperatingPoint.llrNomatch_neg (h : OperatingPoint tpr fpr alpha beta) (hlt : fpr < tpr) :
    llrNomatch tpr fpr < 0 := by
  have htpr : 0 < 1 - tpr := by linarith [h.tpr_lt]
  have hfpr : 0 < 1 - fpr := by linarith [h.fpr_lt]
  apply Real.log_neg (div_pos htpr hfpr)
  rw [div_lt_one hfpr]
  linarith

/-- The ratio less what the rounds so far were expected to add stays what it was. -/
theorem OperatingPoint.expect_llr (h : OperatingPoint tpr fpr alpha beta) (p : ℝ) (n : Nat) :
    expect p n (fun ms => ((sprtRun tpr fpr alpha beta ms).2.rounds : ℝ)) * meanLlr p tpr fpr =
      expect p n fun ms => (sprtRun tpr fpr alpha beta ms).2.llr := by
  let V : SprtState ℝ → ℝ := fun s => s.llr + -meanLlr p tpr fpr * s.rounds
  have hstop : expect p n (fun ms => V (sprtEnd tpr fpr alpha beta ms)) = V ⟨0, 0⟩ := by
    refine expect_stopped V ?_ n ⟨0, 0⟩
    intro s _
    simp only [V, SprtState.observe, meanLlr]
    push_cast
    ring
  simp only [h.sprtRun_eq]
  dsimp only [V] at hstop
  rw [expect_add, expect_mul_left] at hstop
  simp only [Nat.cast_zero, mul_zero, add_zero] at hstop
  linarith

/-- The last step takes the ratio over a boundary by no more than the step. -/
theorem OperatingPoint.sprtEnd_bounds (h : OperatingPoint tpr fpr alpha beta) (hlt : fpr < tpr)
    (ms : List Bool) :
    lower alpha beta + llrNomatch tpr fpr ≤ (sprtEnd tpr fpr alpha beta ms).llr ∧
      (sprtEnd tpr fpr alpha beta ms).llr ≤ upper alpha beta + llrMatch tpr fpr := by
  have hmatch := h.llrMatch_pos hlt
  have hnomatch := h.llrNomatch_neg hlt
  have hupper := h.upper_pos
  have hlower := h.lower_neg
  refine stopped_invariant (fun s : SprtState ℝ =>
    lower alpha beta + llrNomatch tpr fpr ≤ s.llr ∧ s.llr ≤ upper alpha beta + llrMatch tpr fpr)
    ?_ ms ⟨?_, ?_⟩
  · intro s isMatch hdone _
    obtain ⟨hA, hB⟩ := not_or.mp hdone
    have hAlt := not_le.mp hA
    have hBlt := not_le.mp hB
    cases isMatch with
    | false =>
      change _ ≤ s.llr + llrNomatch tpr fpr ∧ s.llr + llrNomatch tpr fpr ≤ _
      constructor <;> linarith
    | true =>
      change _ ≤ s.llr + llrMatch tpr fpr ∧ s.llr + llrMatch tpr fpr ≤ _
      constructor <;> linarith
  · change _ ≤ (0 : ℝ)
    linarith
  · change (0 : ℝ) ≤ _
    linarith

theorem OperatingPoint.rounds_tpr_le (h : OperatingPoint tpr fpr alpha beta) (hlt : fpr < tpr)
    (n : Nat) :
    expect tpr n (fun ms => ((sprtRun tpr fpr alpha beta ms).2.rounds : ℝ)) ≤
      (upper alpha beta + llrMatch tpr fpr) / meanLlr tpr tpr fpr := by
  rw [le_div_iff₀ (h.meanLlr_tpr hlt), h.expect_llr]
  calc
    _ ≤ expect tpr n (fun _ => upper alpha beta + llrMatch tpr fpr) := by
      apply expect_mono h.tpr_pos.le h.tpr_lt.le
      intro ms _
      rw [h.sprtRun_eq]
      exact (h.sprtEnd_bounds hlt ms).2
    _ = _ := expect_const _ _ _

theorem OperatingPoint.rounds_fpr_le (h : OperatingPoint tpr fpr alpha beta) (hlt : fpr < tpr)
    (n : Nat) :
    expect fpr n (fun ms => ((sprtRun tpr fpr alpha beta ms).2.rounds : ℝ)) ≤
      (lower alpha beta + llrNomatch tpr fpr) / meanLlr fpr tpr fpr := by
  rw [le_div_iff_of_neg (h.meanLlr_fpr hlt), h.expect_llr]
  calc
    _ = expect fpr n (fun _ => lower alpha beta + llrNomatch tpr fpr) :=
      (expect_const _ _ _).symm
    _ ≤ _ := by
      apply expect_mono h.fpr_pos.le h.fpr_lt.le
      intro ms _
      rw [h.sprtRun_eq]
      exact (h.sprtEnd_bounds hlt ms).1

/-- A run that is cut off has taken every round. -/
theorem mul_capped_le {p : ℝ} (hp : 0 ≤ p) (hp1 : p ≤ 1) (n : Nat) :
    (n : ℝ) * chance p n (fun ms => (sprtRun tpr fpr alpha beta ms).1 = none) ≤
      expect p n fun ms => ((sprtRun tpr fpr alpha beta ms).2.rounds : ℝ) := by
  apply mul_chance_le hp hp1
  · intro ms _
    exact Nat.cast_nonneg _
  · intro ms hms hnone
    have hrounds : (sprtRun tpr fpr alpha beta ms).2.rounds = 0 + ms.length := sprtLoop_none hnone
    rw [hrounds, Nat.zero_add, hms]

theorem sprt_rounds (h : OperatingPoint tpr fpr alpha beta) (hlt : fpr < tpr) (maxRounds : Nat) :
    let rounds := fun p : ℝ => expect p maxRounds fun ms =>
      ((sprtRun tpr fpr alpha beta ms).2.rounds : ℝ)
    let capped := fun p : ℝ => chance p maxRounds fun ms =>
      (sprtRun tpr fpr alpha beta ms).1 = none
    (∀ p, rounds p * meanLlr p tpr fpr =
        expect p maxRounds fun ms => (sprtRun tpr fpr alpha beta ms).2.llr) ∧
      rounds tpr ≤ (upper alpha beta + llrMatch tpr fpr) / meanLlr tpr tpr fpr ∧
      rounds fpr ≤ (lower alpha beta + llrNomatch tpr fpr) / meanLlr fpr tpr fpr ∧
      maxRounds * capped tpr ≤ rounds tpr ∧ maxRounds * capped fpr ≤ rounds fpr :=
  ⟨fun p => h.expect_llr p maxRounds, h.rounds_tpr_le hlt maxRounds, h.rounds_fpr_le hlt maxRounds,
    mul_capped_le h.tpr_pos.le h.tpr_lt.le maxRounds,
    mul_capped_le h.fpr_pos.le h.fpr_lt.le maxRounds⟩

theorem sprt_rounds_fixed :
    200000 * chance (1 / 1000) 200000 (fun ms =>
        (sprtRun (998 / 1000) (1 / 1000) (1 / 20) (1 / 20) ms).1 = none) ≤
      expect (1 / 1000) 200000 fun ms =>
        ((sprtRun (998 / 1000) (1 / 1000) (1 / 20) (1 / 20) ms).2.rounds : ℝ) := by
  have hcapped := (sprt_rounds operatingPoint_fixed (by norm_num) 200000).2.2.2.2
  rwa [Nat.cast_ofNat] at hcapped

/-! The closed form. Its two numerators have the boundaries the wrong way round. -/

theorem OperatingPoint.boundaries_sum_eq_zero_iff (h : OperatingPoint tpr fpr alpha beta) :
    upper alpha beta + lower alpha beta = 0 ↔ alpha = beta := by
  have halpha := h.alpha_pos
  have hbeta := h.beta_pos
  have hbudgets := h.budgets
  have halpha' : 0 < 1 - alpha := by linarith
  have hupper : 0 < (1 - beta) / alpha := div_pos (by linarith) halpha
  have hlower : 0 < beta / (1 - alpha) := div_pos hbeta halpha'
  have hsum : upper alpha beta + lower alpha beta =
      Real.log ((1 - beta) / alpha * (beta / (1 - alpha))) :=
    (Real.log_mul hupper.ne' hlower.ne').symm
  rw [hsum, div_mul_div_comm]
  constructor
  · intro hlog
    have hone := Real.eq_one_of_pos_of_log_eq_zero (by
      rw [← div_mul_div_comm]
      exact mul_pos hupper hlower) hlog
    rw [div_eq_one_iff_eq (mul_pos halpha halpha').ne'] at hone
    have hfactor : (alpha - beta) * (1 - (alpha + beta)) = 0 := by linarith
    have hrest : 1 - (alpha + beta) ≠ 0 := by linarith
    exact sub_eq_zero.mp ((mul_eq_zero.mp hfactor).resolve_right hrest)
  · intro heq
    subst heq
    rw [mul_comm, div_self (mul_pos halpha halpha').ne', Real.log_one]

/-- Up to the sign, which the absolute value removes, exchanging the boundaries is harmless for
boundaries that are symmetric. -/
theorem OperatingPoint.exchanged_iff (h : OperatingPoint tpr fpr alpha beta) (a : ℝ) {mean : ℝ}
    (hmean : mean ≠ 0) :
    |(a * lower alpha beta + (1 - a) * upper alpha beta) / mean| =
        |(a * upper alpha beta + (1 - a) * lower alpha beta) / mean| ↔
      alpha = beta ∨ a = 1 / 2 := by
  have hne : upper alpha beta - lower alpha beta ≠ 0 := by
    linarith [h.upper_pos, h.lower_neg]
  rw [abs_div, abs_div, div_left_inj' (abs_ne_zero.mpr hmean), abs_eq_abs,
    ← h.boundaries_sum_eq_zero_iff, or_comm]
  apply or_congr
  · constructor <;> intro heq <;> linarith
  · constructor
    · intro heq
      have hfactor : (upper alpha beta - lower alpha beta) * (1 - 2 * a) = 0 := by linarith
      linarith [(mul_eq_zero.mp hfactor).resolve_left hne]
    · intro heq
      rw [heq]
      ring

/-- A test that stops exactly at its boundaries, with the errors that it was built for, takes as
many rounds as the closed form says if the two budgets are equal. -/
theorem closed_form_iff (h : OperatingPoint tpr fpr alpha beta) (hlt : fpr < tpr) :
    ((waldAsnClosedForm Real.log tpr fpr alpha beta).1 =
        some |((1 - beta) * upper alpha beta + beta * lower alpha beta) / meanLlr tpr tpr fpr| ↔
      alpha = beta ∨ beta = 1 / 2) ∧
    ((waldAsnClosedForm Real.log tpr fpr alpha beta).2 =
        some |(alpha * upper alpha beta + (1 - alpha) * lower alpha beta) / meanLlr fpr tpr fpr| ↔
      alpha = beta ∨ alpha = 1 / 2) := by
  have hh1 : (waldAsnClosedForm Real.log tpr fpr alpha beta).1 = some
      |((1 - beta) * lower alpha beta + beta * upper alpha beta) / meanLlr tpr tpr fpr| :=
    if_pos (h.meanLlr_tpr hlt).ne'
  have hh0 : (waldAsnClosedForm Real.log tpr fpr alpha beta).2 = some
      |(alpha * lower alpha beta + (1 - alpha) * upper alpha beta) / meanLlr fpr tpr fpr| :=
    if_pos (h.meanLlr_fpr hlt).ne
  rw [hh1, hh0, Option.some_inj, Option.some_inj]
  refine ⟨?_, h.exchanged_iff alpha (h.meanLlr_fpr hlt).ne⟩
  have hiff := h.exchanged_iff (1 - beta) (h.meanLlr_tpr hlt).ne'
  rw [sub_sub_cancel] at hiff
  rw [hiff]
  apply or_congr_right
  constructor <;> intro heq <;> linarith

theorem closed_form_iff_fixed :
    (waldAsnClosedForm Real.log (998 / 1000) (1 / 1000) (1 / 20) (1 / 20)).1 =
      some |((1 - 1 / 20) * upper (1 / 20) (1 / 20) + 1 / 20 * lower (1 / 20) (1 / 20)) /
        meanLlr (998 / 1000) (998 / 1000) (1 / 1000)| :=
  (closed_form_iff operatingPoint_fixed (by norm_num)).1.mpr (.inl rfl)

/-! Several candidates. -/

section
variable {R : Type*} [Field R] [LinearOrder R]

/-- The loop over the decoys in `simulate_bonferroni`, each on draws of its own. -/
def anyFalseId (A Bb llrM llrNm : R) (decoys : List (List Bool)) : Bool :=
  decoys.any fun ms => decide ((sprtResult A Bb llrM llrNm ms).1 = .h1)

end

theorem OperatingPoint.corrected (h : OperatingPoint tpr fpr alpha beta) {K : Nat} (hK : 1 ≤ K) :
    OperatingPoint tpr fpr (alpha / K) beta := by
  have hK' : (1 : ℝ) ≤ K := by exact_mod_cast hK
  have hle : alpha / K ≤ alpha := div_le_self h.alpha_pos.le hK'
  exact ⟨h.tpr_pos, h.tpr_lt, h.fpr_pos, h.fpr_lt, div_pos h.alpha_pos (by linarith), h.beta_pos,
    by linarith [h.budgets]⟩

theorem OperatingPoint.falseAccept_le (h : OperatingPoint tpr fpr alpha beta) (n : Nat) :
    chance fpr n (fun ms => (sprtRun tpr fpr alpha beta ms).1 = some .h1) ≤
      alpha / (1 - beta) := by
  have hbeta : 0 < 1 - beta := by linarith [h.alpha_pos, h.budgets]
  rw [le_div_iff₀ hbeta]
  have hle := h.accept_le n
  have hone : chance tpr n (fun ms => (sprtRun tpr fpr alpha beta ms).1 = some .h1) ≤ 1 :=
    chance_le_one h.tpr_pos.le h.tpr_lt.le
  have hbound := hle.trans hone
  rwa [div_mul_eq_mul_div, div_le_one h.alpha_pos, mul_comm] at hbound

/-- A decoy is called the correspondent at a boundary or at the cap. -/
theorem sprtResult_h1 {ms : List Bool}
    (h : (sprtResult (upper alpha beta) (lower alpha beta) (llrMatch tpr fpr)
      (llrNomatch tpr fpr) ms).1 = .h1) :
    (sprtRun tpr fpr alpha beta ms).1 = some .h1 ∨ (sprtRun tpr fpr alpha beta ms).1 = none := by
  unfold sprtResult at h
  unfold sprtRun
  split at h
  · rename_i decision s heq
    rw [heq]
    exact .inl (congrArg some h)
  · rename_i s heq
    rw [heq]
    exact .inr rfl

theorem OperatingPoint.capped_fpr_le (h : OperatingPoint tpr fpr alpha beta) (hlt : fpr < tpr)
    {n : Nat} (hn : 0 < n) :
    chance fpr n (fun ms => (sprtRun tpr fpr alpha beta ms).1 = none) ≤
      (lower alpha beta + llrNomatch tpr fpr) / meanLlr fpr tpr fpr / n := by
  have hn' : (0 : ℝ) < n := by exact_mod_cast hn
  rw [le_div_iff₀ hn', mul_comm]
  exact (mul_capped_le h.fpr_pos.le h.fpr_lt.le n).trans (h.rounds_fpr_le hlt n)

theorem bonferroni_family (h : OperatingPoint tpr fpr alpha beta) (hlt : fpr < tpr) {K : Nat}
    (hK : 1 ≤ K) (maxRounds : Nat) (hcap : 0 < maxRounds) :
    expectRuns fpr maxRounds (K - 1) (fun decoys =>
        if anyFalseId (upper (alpha / K) beta) (lower (alpha / K) beta) (llrMatch tpr fpr)
          (llrNomatch tpr fpr) decoys then 1 else 0) ≤
      ((K - 1 : Nat) : ℝ) * (alpha / K / (1 - beta) +
        (lower (alpha / K) beta + llrNomatch tpr fpr) / meanLlr fpr tpr fpr / maxRounds) := by
  have hcorrected := h.corrected hK
  have hany : expectRuns fpr maxRounds (K - 1) (fun decoys =>
      if anyFalseId (upper (alpha / K) beta) (lower (alpha / K) beta) (llrMatch tpr fpr)
        (llrNomatch tpr fpr) decoys then (1 : ℝ) else 0) =
      chanceAny fpr maxRounds (K - 1) fun ms => (sprtResult (upper (alpha / K) beta)
        (lower (alpha / K) beta) (llrMatch tpr fpr) (llrNomatch tpr fpr) ms).1 = .h1 := by
    simp only [anyFalseId, chanceAny, List.any_eq_true, decide_eq_true_eq]
  rw [hany]
  calc
    _ ≤ ((K - 1 : Nat) : ℝ) * chance fpr maxRounds _ :=
      chanceAny_le h.fpr_pos.le h.fpr_lt.le _ _
    _ ≤ _ := by
      apply mul_le_mul_of_nonneg_left _ (Nat.cast_nonneg _)
      calc
        _ ≤ chance fpr maxRounds (fun ms => (sprtRun tpr fpr (alpha / K) beta ms).1 = some .h1 ∨
              (sprtRun tpr fpr (alpha / K) beta ms).1 = none) :=
          chance_mono h.fpr_pos.le h.fpr_lt.le fun ms _ => sprtResult_h1
        _ ≤ _ := chance_or_le h.fpr_pos.le h.fpr_lt.le
        _ ≤ _ := add_le_add (hcorrected.falseAccept_le maxRounds)
          (hcorrected.capped_fpr_le hlt hcap)

/-- The stricter point of the table with ten candidates. -/
theorem bonferroni_family_ten :
    expectRuns (1 / 1000 : ℝ) 200000 9 (fun decoys =>
        if anyFalseId (upper (1 / 100 / (10 : Nat)) (1 / 100))
          (lower (1 / 100 / (10 : Nat)) (1 / 100)) (llrMatch (994 / 1000) (1 / 1000))
          (llrNomatch (994 / 1000) (1 / 1000)) decoys then 1 else 0) ≤
      ((9 : Nat) : ℝ) * (1 / 100 / (10 : Nat) / (1 - 1 / 100) +
        (lower (1 / 100 / (10 : Nat)) (1 / 100) + llrNomatch (994 / 1000) (1 / 1000)) /
          meanLlr (1 / 1000) (994 / 1000) (1 / 1000) / (200000 : Nat)) := by
  have hpoint : OperatingPoint (994 / 1000) (1 / 1000) (1 / 100) (1 / 100) := by
    constructor <;> norm_num
  exact bonferroni_family hpoint (by norm_num) (K := 10) (by norm_num) 200000 (by norm_num)

end AnonSecNet.Evaluation
