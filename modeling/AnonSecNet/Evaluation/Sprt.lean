import AnonSecNet.Foundation.Trials
import Mathlib.Analysis.SpecialFunctions.Log.Basic
import Mathlib.Data.Stream.Defs

/-! The sequential test of `asn_statistical_disclosure.py` and of `run_one_sprt` in
`asn_sda_multicandidate.py`: how often it errs, and how many rounds it takes. -/
namespace AnonSecNet.Evaluation

inductive SprtDecision
  | h0
  | h1
deriving DecidableEq, Repr

structure SprtState (R : Type*) where
  rounds : Nat
  llr : R

section
variable {R : Type*} [Field R] [LinearOrder R]

/-- `log` is that of the math module. -/
def waldBoundaries (log : R → R) (alpha beta : R) : R × R :=
  (log ((1 - beta) / alpha), log (beta / (1 - alpha)))

def perRoundLlrTerms (log : R → R) (tpr fpr : R) : R × R :=
  (log (tpr / fpr), log ((1 - tpr) / (1 - fpr)))

/-- `none` for an infinite number of rounds. -/
def waldAsnClosedForm (log : R → R) (tpr fpr alpha beta : R) : Option R × Option R :=
  let (A, Bb) := waldBoundaries log alpha beta
  let (llrM, llrNm) := perRoundLlrTerms log tpr fpr
  let meanLlrH1 := tpr * llrM + (1 - tpr) * llrNm
  let meanLlrH0 := fpr * llrM + (1 - fpr) * llrNm
  (if meanLlrH1 ≠ 0 then some |((1 - beta) * Bb + beta * A) / meanLlrH1| else none,
    if meanLlrH0 ≠ 0 then some |(alpha * Bb + (1 - alpha) * A) / meanLlrH0| else none)

variable (A Bb llrM llrNm : R)

def SprtState.observe (s : SprtState R) (isMatch : Bool) : SprtState R :=
  ⟨s.rounds + 1, s.llr + if isMatch then llrM else llrNm⟩

/-- `while rounds < max_rounds`, on what `rng.random() < p_match` is in the rounds that it may
take; `none` when it has taken them all. -/
def sprtLoop : List Bool → SprtState R → Option SprtDecision × SprtState R
  | [], s => (none, s)
  | isMatch :: ms, s =>
    let s := s.observe llrM llrNm isMatch
    if A ≤ s.llr then (some .h1, s)
    else if s.llr ≤ Bb then (some .h0, s)
    else sprtLoop ms s

/-- At the cap the call is forced. -/
def sprtResult (ms : List Bool) : SprtDecision × Nat × R :=
  match sprtLoop A Bb llrM llrNm ms ⟨0, 0⟩ with
  | (some decision, s) => (decision, s.rounds, s.llr)
  | (none, s) => (if (A + Bb) / (2 : Nat) < s.llr then .h1 else .h0, s.rounds, s.llr)

def runOneSprt (tpr fpr : R) (trueHypothesis : SprtDecision) (rng : Stream' R)
    (maxRounds : Nat) : (SprtDecision × Nat × R) × Stream' R :=
  let pMatch := if trueHypothesis = .h1 then tpr else fpr
  let result := sprtResult A Bb llrM llrNm ((rng.take maxRounds).map fun u => decide (u < pMatch))
  (result, rng.drop result.2.1)

/-! The loop as a walk that stops. -/

def SprtState.Decided (s : SprtState R) : Prop := A ≤ s.llr ∨ s.llr ≤ Bb

instance : DecidablePred (SprtState.Decided A Bb) := fun s =>
  inferInstanceAs (Decidable (A ≤ s.llr ∨ s.llr ≤ Bb))

def SprtState.verdict (s : SprtState R) : Option SprtDecision :=
  if A ≤ s.llr then some .h1 else if s.llr ≤ Bb then some .h0 else none

/-- Where the walk is after the draws. -/
def sprtStop (ms : List Bool) (s : SprtState R) : SprtState R :=
  Trials.stopped (SprtState.observe llrM llrNm) (SprtState.Decided A Bb) s ms

variable {A Bb llrM llrNm} {s : SprtState R}

theorem sprtLoop_eq (h : ¬ s.Decided A Bb) (ms : List Bool) :
    sprtLoop A Bb llrM llrNm ms s =
      ((sprtStop A Bb llrM llrNm ms s).verdict A Bb, sprtStop A Bb llrM llrNm ms s) := by
  induction ms generalizing s with
  | nil =>
    obtain ⟨hA, hB⟩ := not_or.mp h
    simp [sprtLoop, sprtStop, Trials.stopped, SprtState.verdict, hA, hB]
  | cons isMatch ms ih =>
    have hstop : sprtStop A Bb llrM llrNm (isMatch :: ms) s =
        sprtStop A Bb llrM llrNm ms (s.observe llrM llrNm isMatch) := if_neg h
    rw [hstop, sprtLoop]
    split
    · rename_i hA
      rw [sprtStop, Trials.stopped_of_done (.inl hA), SprtState.verdict, if_pos hA]
    · rename_i hA
      split
      · rename_i hB
        rw [sprtStop, Trials.stopped_of_done (.inr hB), SprtState.verdict, if_neg hA, if_pos hB]
      · rename_i hB
        exact ih (not_or.mpr ⟨hA, hB⟩)

theorem sprtLoop_none {ms : List Bool} (h : (sprtLoop A Bb llrM llrNm ms s).1 = none) :
    (sprtLoop A Bb llrM llrNm ms s).2.rounds = s.rounds + ms.length := by
  induction ms generalizing s with
  | nil => rfl
  | cons isMatch ms ih =>
    rw [sprtLoop] at h ⊢
    split at h
    · cases h
    · split at h
      · cases h
      · rename_i hA hB
        rw [if_neg hA, if_neg hB, ih h]
        simp only [SprtState.observe, List.length_cons]
        omega

end

/-! With the logarithm. -/
section
open Trials

noncomputable def upper (alpha beta : ℝ) : ℝ := (waldBoundaries Real.log alpha beta).1

noncomputable def lower (alpha beta : ℝ) : ℝ := (waldBoundaries Real.log alpha beta).2

noncomputable def llrMatch (tpr fpr : ℝ) : ℝ := (perRoundLlrTerms Real.log tpr fpr).1

noncomputable def llrNomatch (tpr fpr : ℝ) : ℝ := (perRoundLlrTerms Real.log tpr fpr).2

/-- The loop as the scripts start it. -/
noncomputable def sprtRun (tpr fpr alpha beta : ℝ) (ms : List Bool) :
    Option SprtDecision × SprtState ℝ :=
  sprtLoop (upper alpha beta) (lower alpha beta) (llrMatch tpr fpr) (llrNomatch tpr fpr) ms ⟨0, 0⟩

/-- Rates and budgets for which the logarithms exist and zero lies between the boundaries. -/
structure OperatingPoint (tpr fpr alpha beta : ℝ) : Prop where
  tpr_pos : 0 < tpr
  tpr_lt : tpr < 1
  fpr_pos : 0 < fpr
  fpr_lt : fpr < 1
  alpha_pos : 0 < alpha
  beta_pos : 0 < beta
  budgets : alpha + beta < 1

variable {tpr fpr alpha beta : ℝ}

theorem OperatingPoint.exp_upper (h : OperatingPoint tpr fpr alpha beta) :
    Real.exp (upper alpha beta) = (1 - beta) / alpha :=
  Real.exp_log (div_pos (by linarith [h.alpha_pos, h.budgets]) h.alpha_pos)

theorem OperatingPoint.exp_lower (h : OperatingPoint tpr fpr alpha beta) :
    Real.exp (lower alpha beta) = beta / (1 - alpha) :=
  Real.exp_log (div_pos h.beta_pos (by linarith [h.beta_pos, h.budgets]))

theorem OperatingPoint.upper_pos (h : OperatingPoint tpr fpr alpha beta) :
    0 < upper alpha beta := by
  apply Real.log_pos
  rw [one_lt_div h.alpha_pos]
  linarith [h.budgets]

theorem OperatingPoint.lower_neg (h : OperatingPoint tpr fpr alpha beta) :
    lower alpha beta < 0 := by
  have hrest : 0 < 1 - alpha := by linarith [h.beta_pos, h.budgets]
  apply Real.log_neg (div_pos h.beta_pos hrest)
  rw [div_lt_one hrest]
  linarith [h.budgets]

theorem OperatingPoint.exp_match (h : OperatingPoint tpr fpr alpha beta) :
    fpr * Real.exp (llrMatch tpr fpr) = tpr := by
  have hexp : Real.exp (llrMatch tpr fpr) = tpr / fpr := Real.exp_log (div_pos h.tpr_pos h.fpr_pos)
  rw [hexp, mul_div_cancel₀ _ h.fpr_pos.ne']

theorem OperatingPoint.exp_nomatch (h : OperatingPoint tpr fpr alpha beta) :
    (1 - fpr) * Real.exp (llrNomatch tpr fpr) = 1 - tpr := by
  have hfpr : 0 < 1 - fpr := by linarith [h.fpr_lt]
  have hexp : Real.exp (llrNomatch tpr fpr) = (1 - tpr) / (1 - fpr) :=
    Real.exp_log (div_pos (by linarith [h.tpr_lt]) hfpr)
  rw [hexp, mul_div_cancel₀ _ hfpr.ne']

/-- Where the loop is when it ends. -/
noncomputable def sprtEnd (tpr fpr alpha beta : ℝ) (ms : List Bool) : SprtState ℝ :=
  sprtStop (upper alpha beta) (lower alpha beta) (llrMatch tpr fpr) (llrNomatch tpr fpr) ms ⟨0, 0⟩

theorem OperatingPoint.sprtRun_eq (h : OperatingPoint tpr fpr alpha beta) (ms : List Bool) :
    sprtRun tpr fpr alpha beta ms =
      ((sprtEnd tpr fpr alpha beta ms).verdict (upper alpha beta) (lower alpha beta),
        sprtEnd tpr fpr alpha beta ms) :=
  sprtLoop_eq (not_or.mpr ⟨not_le.mpr h.upper_pos, not_le.mpr h.lower_neg⟩) ms

theorem OperatingPoint.accept_iff (h : OperatingPoint tpr fpr alpha beta) (ms : List Bool) :
    (sprtRun tpr fpr alpha beta ms).1 = some .h1 ↔
      upper alpha beta ≤ (sprtEnd tpr fpr alpha beta ms).llr := by
  rw [h.sprtRun_eq]
  simp only [SprtState.verdict]
  split
  · simp_all
  · split <;> simp_all

theorem OperatingPoint.reject_iff (h : OperatingPoint tpr fpr alpha beta) (ms : List Bool) :
    (sprtRun tpr fpr alpha beta ms).1 = some .h0 ↔
      (sprtEnd tpr fpr alpha beta ms).llr ≤ lower alpha beta := by
  rw [h.sprtRun_eq]
  simp only [SprtState.verdict]
  split
  · rename_i hA
    have hlt := h.lower_neg.trans h.upper_pos
    simp [not_le.mpr (hlt.trans_le hA)]
  · split <;> simp_all

/-- What a decoy does is what the true pair does, weighted by the ratio at the end. -/
theorem OperatingPoint.expect_ratio (h : OperatingPoint tpr fpr alpha beta) (n : Nat)
    (F : SprtState ℝ → ℝ) :
    expect fpr n (fun ms => Real.exp (sprtEnd tpr fpr alpha beta ms).llr *
      F (sprtEnd tpr fpr alpha beta ms)) =
        expect tpr n fun ms => F (sprtEnd tpr fpr alpha beta ms) := by
  refine (expect_stopped_ratio (q := tpr) (fun s : SprtState ℝ => Real.exp s.llr) F ?_ ?_ n
    ⟨0, 0⟩).trans ?_
  · intro s _
    change fpr * Real.exp (s.llr + llrMatch tpr fpr) = _
    rw [Real.exp_add, mul_left_comm, h.exp_match, mul_comm]
  · intro s _
    change (1 - fpr) * Real.exp (s.llr + llrNomatch tpr fpr) = _
    rw [Real.exp_add, mul_left_comm, h.exp_nomatch, mul_comm]
  · rw [Real.exp_zero, one_mul]
    rfl

/-- A run that ends at the upper boundary is likelier for the true pair by the boundary. -/
theorem OperatingPoint.accept_le (h : OperatingPoint tpr fpr alpha beta) (n : Nat) :
    (1 - beta) / alpha * chance fpr n (fun ms => (sprtRun tpr fpr alpha beta ms).1 = some .h1) ≤
      chance tpr n fun ms => (sprtRun tpr fpr alpha beta ms).1 = some .h1 := by
  let F : SprtState ℝ → ℝ := fun s => if upper alpha beta ≤ s.llr then 1 else 0
  rw [← h.exp_upper]
  calc
    _ ≤ expect fpr n (fun ms => Real.exp (sprtEnd tpr fpr alpha beta ms).llr *
          F (sprtEnd tpr fpr alpha beta ms)) := by
      apply mul_chance_le h.fpr_pos.le h.fpr_lt.le
      · intro ms _
        apply mul_nonneg (Real.exp_pos _).le
        dsimp only [F]
        split
        · exact zero_le_one
        · exact le_rfl
      · intro ms _ haccept
        have hA := (h.accept_iff ms).mp haccept
        dsimp only [F]
        rw [if_pos hA, mul_one]
        exact Real.exp_le_exp.mpr hA
    _ = expect tpr n fun ms => F (sprtEnd tpr fpr alpha beta ms) := h.expect_ratio n F
    _ = _ := by simp only [F, chance, h.accept_iff]

theorem OperatingPoint.reject_le (h : OperatingPoint tpr fpr alpha beta) (n : Nat) :
    chance tpr n (fun ms => (sprtRun tpr fpr alpha beta ms).1 = some .h0) ≤
      beta / (1 - alpha) *
        chance fpr n fun ms => (sprtRun tpr fpr alpha beta ms).1 = some .h0 := by
  let F : SprtState ℝ → ℝ := fun s => if s.llr ≤ lower alpha beta then 1 else 0
  rw [← h.exp_lower]
  calc
    _ = expect tpr n fun ms => F (sprtEnd tpr fpr alpha beta ms) := by
      simp only [F, chance, h.reject_iff]
    _ = expect fpr n (fun ms => Real.exp (sprtEnd tpr fpr alpha beta ms).llr *
          F (sprtEnd tpr fpr alpha beta ms)) := (h.expect_ratio n F).symm
    _ ≤ expect fpr n (fun ms => Real.exp (lower alpha beta) *
          if (sprtRun tpr fpr alpha beta ms).1 = some .h0 then 1 else 0) := by
      apply expect_mono h.fpr_pos.le h.fpr_lt.le
      intro ms _
      dsimp only [F]
      simp only [h.reject_iff]
      split
      · rename_i hB
        rw [mul_one, mul_one]
        exact Real.exp_le_exp.mpr hB
      · rw [mul_zero, mul_zero]
    _ = _ := expect_mul_left _ _ _ _

/-- A decoy that crosses the upper boundary and a true pair that crosses the lower one, however
early the loop is cut off. -/
theorem sprt_errors (h : OperatingPoint tpr fpr alpha beta) (maxRounds : Nat) :
    let falseAccept := chance fpr maxRounds fun ms =>
      (sprtRun tpr fpr alpha beta ms).1 = some .h1
    let falseReject := chance tpr maxRounds fun ms =>
      (sprtRun tpr fpr alpha beta ms).1 = some .h0
    falseAccept * (1 - beta) ≤ alpha * (1 - falseReject) ∧
      falseReject * (1 - alpha) ≤ beta * (1 - falseAccept) ∧
      falseAccept + falseReject ≤ alpha + beta := by
  intro falseAccept falseReject
  have hexclude (ms : List Bool) (haccept : (sprtRun tpr fpr alpha beta ms).1 = some .h1) :
      ¬ (sprtRun tpr fpr alpha beta ms).1 = some .h0 := by simp [haccept]
  have hone : falseAccept * (1 - beta) ≤ alpha * (1 - falseReject) := by
    have hle := h.accept_le maxRounds
    have hsum := chance_add_le_one (n := maxRounds) h.tpr_pos.le h.tpr_lt.le
      fun ms _ => hexclude ms
    have hbound : (1 - beta) / alpha * falseAccept ≤ 1 - falseReject := by linarith
    rwa [div_mul_eq_mul_div, div_le_iff₀ h.alpha_pos, mul_comm, mul_comm _ alpha] at hbound
  have htwo : falseReject * (1 - alpha) ≤ beta * (1 - falseAccept) := by
    have hle := h.reject_le maxRounds
    have hsum := chance_add_le_one (n := maxRounds) h.fpr_pos.le h.fpr_lt.le
      fun ms _ => hexclude ms
    have hpos : 0 < 1 - alpha := by linarith [h.beta_pos, h.budgets]
    rw [div_mul_eq_mul_div, le_div_iff₀ hpos] at hle
    exact hle.trans (mul_le_mul_of_nonneg_left (by linarith) h.beta_pos.le)
  exact ⟨hone, htwo, by linarith⟩

/-- The first point of the table at the largest budget. -/
theorem operatingPoint_fixed : OperatingPoint (998 / 1000) (1 / 1000) (1 / 20) (1 / 20) := by
  constructor <;> norm_num

theorem sprt_errors_fixed :
    chance (1 / 1000 : ℝ) 200000 (fun ms =>
        (sprtRun (998 / 1000) (1 / 1000) (1 / 20) (1 / 20) ms).1 = some .h1) +
      chance (998 / 1000 : ℝ) 200000 (fun ms =>
        (sprtRun (998 / 1000) (1 / 1000) (1 / 20) (1 / 20) ms).1 = some .h0) ≤ 1 / 10 :=
  (sprt_errors operatingPoint_fixed 200000).2.2.trans (by norm_num)

end
end AnonSecNet.Evaluation
