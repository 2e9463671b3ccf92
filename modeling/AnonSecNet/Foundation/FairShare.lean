import Mathlib.Algebra.BigOperators.Field
import Mathlib.Algebra.Order.BigOperators.Group.Finset
import Mathlib.Algebra.Order.BigOperators.Ring.Finset
import Mathlib.Tactic.Linarith
import Mathlib.Tactic.Positivity

/-! Turns by credit: each turn gives every party its share, and the one that is served, one of
those with the most, pays one for it. -/
namespace FairShare
variable {ι 𝕜 : Type*} [DecidableEq ι] [Field 𝕜]

def serve (share credit : ι → 𝕜) (i : ι) : ι → 𝕜 :=
  fun j => credit j + share j - if j = i then 1 else 0

def credits (share credit : ι → 𝕜) : List ι → ι → 𝕜
  | [] => credit
  | i :: served => credits share (serve share credit i) served

variable {share credit : ι → 𝕜}

theorem credits_eq (share credit : ι → 𝕜) (served : List ι) (j : ι) :
    credits share credit served j = credit j + served.length * share j - served.count j := by
  induction served generalizing credit with
  | nil => simp [credits]
  | cons i served ih =>
    unfold credits
    rw [ih, List.length_cons, List.count_cons]
    unfold serve
    by_cases hj : j = i
    · subst hj
      simp
      ring
    · have hi : ¬ i = j := fun h => hj h.symm
      simp [hj, hi]
      ring

theorem sum_serve [Fintype ι] (hshare : ∑ j, share j = 1) (credit : ι → 𝕜) (i : ι) :
    ∑ j, serve share credit i j = ∑ j, credit j := by
  simp only [serve, Finset.sum_sub_distrib, Finset.sum_add_distrib, hshare,
    Finset.sum_ite_eq', Finset.mem_univ, if_true]
  ring

section
variable [LinearOrder 𝕜] [IsStrictOrderedRing 𝕜]

/-- One of those with the most. -/
def Richest (share credit : ι → 𝕜) (i : ι) : Prop := ∀ j, credit j + share j ≤ credit i + share i

def RichestServed (share credit : ι → 𝕜) : List ι → Prop
  | [] => True
  | i :: served => Richest share credit i ∧ RichestServed share (serve share credit i) served

variable [Fintype ι]

/-- Nobody owes a whole turn. -/
theorem serve_gt (hshare : ∑ j, share j = 1) (hpos : ∀ j, 0 ≤ share j)
    (hsum : ∑ j, credit j = 0) (hcredit : ∀ j, -1 < credit j) {i : ι}
    (hi : Richest share credit i) (j : ι) : -1 < serve share credit i j := by
  unfold serve
  by_cases hj : j = i
  · subst hj
    -- the credits and shares sum to one, so the highest is positive
    have htotal : ∑ l, (credit l + share l) = 1 := by
      rw [Finset.sum_add_distrib, hsum, hshare, zero_add]
    have hrich : 0 < credit j + share j := by
      by_contra hle
      have hall : ∀ l ∈ Finset.univ, credit l + share l ≤ 0 :=
        fun l _ => (hi l).trans (not_lt.mp hle)
      have := Finset.sum_nonpos hall
      linarith
    rw [if_pos rfl]
    linarith
  · rw [if_neg hj]
    linarith [hcredit j, hpos j]

theorem credits_balanced (hshare : ∑ j, share j = 1) (hpos : ∀ j, 0 ≤ share j)
    {served : List ι} (hsum : ∑ j, credit j = 0) (hcredit : ∀ j, -1 < credit j)
    (h : RichestServed share credit served) :
    ∑ j, credits share credit served j = 0 ∧ ∀ j, -1 < credits share credit served j := by
  induction served generalizing credit with
  | nil => exact ⟨hsum, hcredit⟩
  | cons i served ih =>
    exact ih ((sum_serve hshare credit i).trans hsum)
      (serve_gt hshare hpos hsum hcredit h.1) h.2

/-- Credits that sum to zero, none of them at or below minus one, leave every one of them below
the number of the others. -/
theorem lt_of_balanced (hcard : 2 ≤ Fintype.card ι) (hsum : ∑ j, credit j = 0)
    (hcredit : ∀ j, -1 < credit j) (i : ι) : credit i < Fintype.card ι - 1 := by
  have hothers : (Finset.univ.erase i).card = Fintype.card ι - 1 := by
    rw [Finset.card_erase_of_mem (Finset.mem_univ i), Finset.card_univ]
  have hne : (Finset.univ.erase i).Nonempty := Finset.card_pos.mp (by omega)
  have hbelow : ∑ _j ∈ Finset.univ.erase i, (-1 : 𝕜) < ∑ j ∈ Finset.univ.erase i, credit j :=
    Finset.sum_lt_sum_of_nonempty hne fun j _ => hcredit j
  have hsplit := Finset.add_sum_erase Finset.univ credit (Finset.mem_univ i)
  rw [hsum] at hsplit
  rw [Finset.sum_const, hothers, nsmul_eq_mul, Nat.cast_sub (by omega)] at hbelow
  push_cast at hbelow
  linarith

/-- How often each party was served, from zero credits. -/
theorem fair (hcard : 2 ≤ Fintype.card ι) (hshare : ∑ j, share j = 1) (hpos : ∀ j, 0 ≤ share j)
    {served : List ι} (h : RichestServed share (fun _ => 0) served) (i : ι) :
    served.length * share i - (Fintype.card ι - 1) < (served.count i : 𝕜) ∧
      (served.count i : 𝕜) < served.length * share i + 1 := by
  obtain ⟨hsum, hgt⟩ := credits_balanced hshare hpos Finset.sum_const_zero
    (fun _ => neg_one_lt_zero) h
  have hlt := lt_of_balanced hcard hsum hgt i
  have hgt := hgt i
  rw [credits_eq] at hlt hgt
  constructor <;> linarith

end
end FairShare
