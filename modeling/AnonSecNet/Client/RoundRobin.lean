import AnonSecNet.Client.Striping
import AnonSecNet.Foundation.FairShare
import Mathlib.Algebra.BigOperators.Fin

/-! Weighted round-robin striping in exact arithmetic: how many of the packets each leg gets. -/
namespace AnonSecNet.Client
variable {k : Nat}

/-! The pass over the legs. -/

theorem gainCredits_spec (legs : Fin k → LegShare ℚ) (best : Fin k) {l : List (Fin k)}
    (hnodup : l.Nodup) (hbest : best ∉ l) :
    (∀ i, (gainCredits legs best l).1 i
      = if i ∈ l then { legs i with credit := (legs i).credit + (legs i).weight } else legs i) ∧
    ∀ i, i = best ∨ i ∈ l → ((gainCredits legs best l).1 i).credit
      ≤ ((gainCredits legs best l).1 (gainCredits legs best l).2).credit := by
  induction l generalizing legs best with
  | nil =>
    refine ⟨fun i => by simp [gainCredits], fun i hi => ?_⟩
    obtain rfl : i = best := by simpa using hi
    exact le_rfl
  | cons i rest ih =>
    obtain ⟨hi, hnodup⟩ := List.nodup_cons.mp hnodup
    obtain ⟨hbi, hbest⟩ := not_or.mp (fun h => hbest (List.mem_cons.mpr h))
    unfold gainCredits
    dsimp only
    generalize hlegs : Function.update legs i
      { legs i with credit := (legs i).credit + (legs i).weight } = legs₁
    have hself : legs₁ i = { legs i with credit := (legs i).credit + (legs i).weight } := by
      rw [← hlegs, Function.update_self]
    have hother : ∀ j, j ≠ i → legs₁ j = legs j := by
      intro j hj
      rw [← hlegs, Function.update_of_ne hj]
    generalize hnext : (if (legs₁ best).credit < (legs₁ i).credit then i else best) = next
    have hnextmem : next ∉ rest := by
      rw [← hnext]
      split
      · exact hi
      · exact hbest
    have hge : (legs₁ best).credit ≤ (legs₁ next).credit ∧
        (legs₁ i).credit ≤ (legs₁ next).credit := by
      rw [← hnext]
      split
      · rename_i hlt
        exact ⟨hlt.le, le_rfl⟩
      · rename_i hge
        exact ⟨le_rfl, not_lt.mp hge⟩
    obtain ⟨hcredit, hmax⟩ := ih legs₁ next hnodup hnextmem
    refine ⟨fun j => ?_, fun j hj => ?_⟩
    · rw [hcredit]
      by_cases hj : j = i
      · subst hj
        simp [hi, hself]
      · simp [hj, hother j hj]
    · have hkept : ∀ j, j ∉ rest → (legs₁ j).credit ≤ (legs₁ next).credit →
          ((gainCredits legs₁ next rest).1 j).credit
            ≤ ((gainCredits legs₁ next rest).1 (gainCredits legs₁ next rest).2).credit := by
        intro j hj hle
        refine le_trans ?_ (hmax next (Or.inl rfl))
        rw [hcredit, hcredit, if_neg hj, if_neg hnextmem]
        exact hle
      rcases hj with rfl | hj
      · exact hkept j hbest hge.1
      · rcases List.mem_cons.mp hj with rfl | hj
        · exact hkept j hi hge.2
        · exact hmax j (Or.inr hj)

variable [NeZero k] {s : Striping ℚ k}

/-- The legs of a sequence of picks, and the state behind it. -/
def stripePicks (batchMs : ℚ → ℚ → Nat) :
    List (StripeCall ℚ) → Striping ℚ k → List (Fin k) × Striping ℚ k
  | [], s => ([], s)
  | call :: calls, s =>
    let (leg, s) := stripePickLeg batchMs s call
    let (legs, s) := stripePicks batchMs calls s
    (leg :: legs, s)

def Striping.shares (s : Striping ℚ k) (i : Fin k) : ℚ := (s.legs i).weight
def Striping.credits (s : Striping ℚ k) (i : Fin k) : ℚ := (s.legs i).credit

/-- As `stripe_config_init` leaves the legs for the weights `list`. -/
structure Striping.Configured (s : Striping ℚ k) (list : List ℚ) : Prop where
  weights : stripeWeights k list = some (s.shares, s.equalWeights)
  noCredit : s.credits = fun _ => 0

/-! The weights. -/

theorem stripeWeights_ofFn {w : Fin k → ℚ} (hsum : ∑ i, w i = 1) :
    stripeWeights k (List.ofFn w) = some (w, (List.finRange k).all fun i => w i = w 0) := by
  have hne : List.ofFn w ≠ [] := by
    simpa using NeZero.ne k
  have hget : ∀ i : Fin k, (List.ofFn w).getD i 0 = w i := by
    intro i
    simp [List.getD]
  have htotal : (List.finRange k).foldl (fun total i => total + w i) 0 = 1 := by
    rw [← hsum, Fin.sum_univ_def, List.sum_eq_foldl, List.foldl_map]
  unfold stripeWeights
  simp only [hne, hget, htotal, if_false, false_or, div_one]
  rw [if_neg (by simp), if_neg (by norm_num)]

/-- A pick by unequal weights serves a leg with the highest credit. -/
theorem pickRoundRobin_serves (hweights : s.equalWeights = false) :
    FairShare.Richest s.shares s.credits (pickRoundRobin s).1 ∧
      (pickRoundRobin s).2.shares = s.shares ∧
      (pickRoundRobin s).2.credits
        = FairShare.serve s.shares s.credits (pickRoundRobin s).1 ∧
      (pickRoundRobin s).2.policy = s.policy ∧ (pickRoundRobin s).2.equalWeights = false := by
  obtain ⟨rest, hrest⟩ : ∃ rest, List.finRange k = 0 :: rest := by
    obtain ⟨n, rfl⟩ := Nat.exists_eq_succ_of_ne_zero (NeZero.ne k)
    exact ⟨_, List.finRange_succ⟩
  have hnodup : (0 :: rest).Nodup := hrest ▸ List.nodup_finRange k
  obtain ⟨hzero, hnodup⟩ := List.nodup_cons.mp hnodup
  have hfirst : gainCredits s.legs 0 (List.finRange k)
      = gainCredits (Function.update s.legs 0
          { s.legs 0 with credit := (s.legs 0).credit + (s.legs 0).weight }) 0 rest := by
    rw [hrest]
    simp [gainCredits]
  obtain ⟨hcredit, hmax⟩ := gainCredits_spec (Function.update s.legs 0
    { s.legs 0 with credit := (s.legs 0).credit + (s.legs 0).weight }) 0 hnodup hzero
  have hall : ∀ i, i = 0 ∨ i ∈ rest := by
    intro i
    have := List.mem_finRange i
    rw [hrest] at this
    exact List.mem_cons.mp this
  generalize hpass : gainCredits (Function.update s.legs 0
    { s.legs 0 with credit := (s.legs 0).credit + (s.legs 0).weight }) 0 rest = pass
  rw [hpass] at hcredit hmax hfirst
  have hpick : pickRoundRobin s = (pass.2, { s with
      legs := Function.update pass.1 pass.2
        { pass.1 pass.2 with credit := (pass.1 pass.2).credit - 1 } }) := by
    unfold pickRoundRobin
    rw [hweights, hfirst]
    rfl
  rw [hpick]
  have hgained : ∀ i, pass.1 i
      = { s.legs i with credit := (s.legs i).credit + (s.legs i).weight } := by
    intro i
    rw [hcredit]
    by_cases hi : i = 0
    · subst hi
      simp [hzero]
    · simp [(hall i).resolve_left hi, hi]
  refine ⟨fun j => ?_, ?_, ?_, rfl, hweights⟩
  · have := hmax j (hall j)
    rw [hgained, hgained] at this
    exact this
  · funext i
    unfold Striping.shares
    dsimp only
    by_cases hi : i = pass.2
    · subst hi
      simp [hgained]
    · simp [hi, hgained]
  · funext i
    unfold FairShare.serve Striping.credits Striping.shares
    dsimp only
    by_cases hi : i = pass.2
    · subst hi
      simp [hgained]
    · simp [hi, hgained]

/-- A run of picks serves in turn the legs with the highest credit. -/
theorem stripePicks_serves (batchMs : ℚ → ℚ → Nat) (hk : k ≠ 1)
    (hpolicy : s.policy = .roundRobin) (hweights : s.equalWeights = false)
    (calls : List (StripeCall ℚ)) :
    (stripePicks batchMs calls s).1.length = calls.length ∧
      FairShare.RichestServed s.shares s.credits (stripePicks batchMs calls s).1 ∧
      (stripePicks batchMs calls s).2.credits
        = FairShare.credits s.shares s.credits (stripePicks batchMs calls s).1 := by
  induction calls generalizing s with
  | nil => exact ⟨rfl, trivial, rfl⟩
  | cons call calls ih =>
    obtain ⟨hrich, hshares, hcredits, hkept, hunequal⟩ := pickRoundRobin_serves hweights
    have hpick : stripePickLeg batchMs s call = pickRoundRobin s := by
      unfold stripePickLeg
      rw [if_neg hk, hpolicy]
    obtain ⟨hlen, hserved, hend⟩ := ih (hkept.trans hpolicy) hunequal
    rw [hshares, hcredits] at hserved hend
    unfold stripePicks
    rw [hpick]
    exact ⟨congrArg Nat.succ hlen, ⟨hrich, hserved⟩, hend⟩

/-- With unequal weights `w` that sum to one, `n` picks leave credits that sum to zero, and leg
`i` got more than `n * w i - (k - 1)` and fewer than `n * w i + 1` of them. -/
theorem round_robin_fair (hk : 2 ≤ k) {w : Fin k → ℚ} (hpos : ∀ i, 0 ≤ w i)
    (hsum : ∑ i, w i = 1) (hunequal : ¬ ∀ i j, w i = w j) (hpolicy : s.policy = .roundRobin)
    (hstart : s.Configured (List.ofFn w)) (batchMs : ℚ → ℚ → Nat) (calls : List (StripeCall ℚ)) :
    ∑ i, (stripePicks batchMs calls s).2.credits i = 0 ∧
      ∀ i, calls.length * w i - (k - 1) < ((stripePicks batchMs calls s).1.count i : ℚ) ∧
        ((stripePicks batchMs calls s).1.count i : ℚ) < calls.length * w i + 1 := by
  have hconfig := hstart.weights
  rw [stripeWeights_ofFn hsum] at hconfig
  obtain ⟨hshares, hequal⟩ := Prod.mk.inj (Option.some.inj hconfig)
  have hweights : s.equalWeights = false := by
    rw [← hequal, List.all_eq_false]
    by_contra hall
    push Not at hall
    have hfirst : ∀ i, w i = w 0 := fun i => by simpa using hall i (List.mem_finRange i)
    exact hunequal fun i j => (hfirst i).trans (hfirst j).symm
  obtain ⟨hlen, hserved, hend⟩ := stripePicks_serves batchMs (by omega) hpolicy hweights calls
  rw [← hshares, hstart.noCredit] at hserved hend
  refine ⟨?_, fun i => ?_⟩
  · rw [hend]
    exact (FairShare.credits_balanced hsum hpos Finset.sum_const_zero
      (fun _ => neg_one_lt_zero) hserved).1
  · have hfair := FairShare.fair (by rwa [Fintype.card_fin]) hsum hpos hserved i
    rw [hlen, Fintype.card_fin] at hfair
    exact hfair

/-- Two legs, the first of them with four fifths of the packets. -/
def fourToOne : Striping ℚ 2 :=
  .twoLegs .roundRobin false fun i => ⟨if i.1 = 0 then 4 / 5 else 1 / 5, 0, 0, RingBuffer.empty 0⟩

theorem round_robin_fair_fourToOne :
    ((stripePicks (fun _ _ => 0) (List.replicate 7 ⟨0, 0, 0⟩) fourToOne).1.count 0 : ℚ)
      < 7 * (4 / 5) + 1 := by
  have hsum : ∑ i, fourToOne.shares i = 1 := by
    rw [Fin.sum_univ_two]
    decide +kernel
  have hconfig : fourToOne.Configured (List.ofFn fourToOne.shares) :=
    ⟨(stripeWeights_ofFn hsum).trans (by decide +kernel), rfl⟩
  exact ((round_robin_fair (le_refl 2) (by decide +kernel) hsum
    (fun h => absurd (h 0 1) (by decide +kernel)) rfl hconfig (fun _ _ => 0)
    (List.replicate 7 ⟨0, 0, 0⟩)).2 0).2

end AnonSecNet.Client
