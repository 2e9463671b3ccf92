import AnonSecNet.Client.RoundRobin
import AnonSecNet.Foundation.Inversion
import Mathlib.Data.Fintype.BigOperators
import Mathlib.Data.Set.Card

/-! Striping by independent draws in exact arithmetic: how many of the 32-bit values behind a
sequence of draws give a sequence of legs. -/
namespace AnonSecNet.Client
open Inversion
variable {k : Nat} {list : List ℚ}

/-- A failed `RAND_bytes` counts as zero. -/
def stripeUniform01 (bytes : Option (Fin (2 ^ 32))) : ℚ := ((bytes.getD 0).val : ℚ) / 4294967296

/-! The weights of `stripe_config_init`. -/

/-- What the setting says of a leg, one for all if it is not given. -/
def givenWeight (k : Nat) (list : List ℚ) (i : Fin k) : ℚ :=
  if list = [] then 1 else list.getD i 0

theorem givenWeight_nonneg (hnonneg : ∀ x ∈ list, 0 ≤ x) (i : Fin k) :
    0 ≤ givenWeight k list i := by
  unfold givenWeight
  split
  · exact zero_le_one
  · rw [List.getD_eq_getElem?_getD]
    cases hget : list[i.val]? with
    | none => exact le_rfl
    | some x => exact hnonneg x (List.mem_of_getElem? hget)

variable [NeZero k] {s : Striping ℚ k}

theorem stripeWeights_some {w : Fin k → ℚ} {equal : Bool}
    (h : stripeWeights k list = some (w, equal)) :
    0 < ∑ i, givenWeight k list i ∧
      ∀ i, w i = givenWeight k list i / ∑ j, givenWeight k list j := by
  unfold stripeWeights at h
  split at h
  · cases h
  · have htotal : (List.finRange k).foldl (fun total i => total + givenWeight k list i) 0 =
        ∑ i, givenWeight k list i := by
      rw [Fin.sum_univ_def, List.sum_eq_foldl, List.foldl_map]
    change (if (List.finRange k).foldl (fun total i => total + givenWeight k list i) 0 ≤ 0 then none
      else some (fun i => givenWeight k list i /
        (List.finRange k).foldl (fun total i => total + givenWeight k list i) 0, _)) = _ at h
    rw [htotal] at h
    split at h
    · cases h
    · rename_i hpos
      obtain ⟨rfl, -⟩ := Prod.mk.inj (Option.some.inj h)
      exact ⟨not_le.mp hpos, fun _ => rfl⟩

theorem Striping.Configured.shares_nonneg (h : s.Configured list) (hnonneg : ∀ x ∈ list, 0 ≤ x)
    (i : Fin k) : 0 ≤ s.shares i := by
  obtain ⟨hpos, hw⟩ := stripeWeights_some h.weights
  rw [hw]
  exact div_nonneg (givenWeight_nonneg hnonneg i) hpos.le

theorem Striping.Configured.sum_shares (h : s.Configured list) : ∑ i, s.shares i = 1 := by
  obtain ⟨hpos, hw⟩ := stripeWeights_some h.weights
  rw [Finset.sum_congr rfl fun i _ => hw i, ← Finset.sum_div, div_self hpos.ne']

/-! One draw. -/

theorem reach_eq (s : Striping ℚ k) (u acc : ℚ) (legs : List (Fin k)) :
    stripeDrawByWeight.reach s u acc legs =
      (pick (u < ·) s.shares acc legs).getD (Fin.ofNat k (k - 1)) := by
  induction legs generalizing acc with
  | nil => rfl
  | cons i rest ih =>
    rw [stripeDrawByWeight.reach, pick]
    change (if u < acc + s.shares i then i else _) = _
    split
    · rfl
    · exact ih _

theorem mass_shares (h : s.Configured list) : mass s.shares (List.finRange k) = 1 := by
  rw [mass, ← Fin.sum_univ_def, h.sum_shares]

/-- The loop ends at a leg, as the weights reach one. -/
theorem stripeDrawByWeight_eq_iff (h : s.Configured list) {u : ℚ} (hu : u < 1) {i : Fin k} :
    stripeDrawByWeight s u = i ↔ pick (u < ·) s.shares 0 (List.finRange k) = some i := by
  have hsome : (pick (u < ·) s.shares 0 (List.finRange k)).isSome := by
    apply pick_isSome (List.finRange_eq_nil_iff.not.mpr (NeZero.ne k))
    rwa [zero_add, mass_shares h]
  obtain ⟨j, hj⟩ := Option.isSome_iff_exists.mp hsome
  have hdraw : stripeDrawByWeight s u = (pick (u < ·) s.shares 0 (List.finRange k)).getD
      (Fin.ofNat k (k - 1)) := reach_eq s u 0 (List.finRange k)
  rw [hdraw, hj, Option.getD_some, Option.some_inj]

/-- Of the values of a draw, those that give leg `i`. -/
def legDraws (s : Striping ℚ k) (i : Fin k) : Finset (Fin (2 ^ 32)) :=
  Finset.univ.filter fun r => stripeDrawByWeight s (stripeUniform01 (some r)) = i

theorem card_legDraws (h : s.Configured list) (hnonneg : ∀ x ∈ list, 0 ≤ x) (i : Fin k) :
    |((legDraws s i).card : ℚ) - 2 ^ 32 * s.shares i| ≤ 1 := by
  have hdraw (r : Fin (2 ^ 32)) : stripeDrawByWeight s (stripeUniform01 (some r)) = i ↔
      pick ((r.val : ℚ) / (2 ^ 32 : Nat) < ·) s.shares 0 (List.finRange k) = some i := by
    have huniform : stripeUniform01 (some r) = (r.val : ℚ) / (2 ^ 32 : Nat) := by
      rw [stripeUniform01, Option.getD_some]
      norm_num
    rw [huniform]
    apply stripeDrawByWeight_eq_iff h
    rw [div_lt_one (by norm_num)]
    exact_mod_cast r.isLt
  have hcard : (legDraws s i).card = ((Finset.range (2 ^ 32)).filter fun m : Nat =>
      pick ((m : ℚ) / (2 ^ 32 : Nat) < ·) s.shares 0 (List.finRange k) = some i).card := by
    apply Finset.card_nbij Fin.val
    · intro r hr
      have hpick := (hdraw r).mp (Finset.mem_filter.mp (Finset.mem_coe.mp hr)).2
      exact Finset.mem_coe.mpr (Finset.mem_filter.mpr ⟨Finset.mem_range.mpr r.isLt, hpick⟩)
    · exact Fin.val_injective.injOn
    · intro m hm
      obtain ⟨hlt, hpick⟩ := Finset.mem_filter.mp (Finset.mem_coe.mp hm)
      have hr : (⟨m, Finset.mem_range.mp hlt⟩ : Fin (2 ^ 32)) ∈ legDraws s i :=
        Finset.mem_filter.mpr ⟨Finset.mem_univ _, (hdraw _).mpr hpick⟩
      exact ⟨_, hr, rfl⟩
  rw [hcard]
  have htotal := mass_shares h
  have hpicks := card_picks (N := 2 ^ 32) (by norm_num) (List.nodup_finRange k)
    (fun b _ => h.shares_nonneg hnonneg b) (by rw [htotal]; exact one_pos)
    (fun m c => (m : ℚ) / (2 ^ 32 : Nat) < c)
    (fun m c hc => by rw [htotal, mul_one]; exact hc.le)
    (fun m c hc => by rw [htotal, mul_one]; exact not_lt.mp hc) (List.mem_finRange i)
  rw [htotal, div_one] at hpicks
  exact_mod_cast hpicks

/-! A sequence of packets. -/

/-- The calls for `n` packets, with the clock and the draws of each. -/
def drawnCalls {n : Nat} (nowMs : Fin n → Nat) (batchDraw : Fin n → ℚ)
    (draws : Fin n → Fin (2 ^ 32)) : List (StripeCall ℚ) :=
  List.ofFn fun t => ⟨nowMs t, stripeUniform01 (some (draws t)), batchDraw t⟩

theorem stripePickLeg_iid (hpolicy : s.policy = .iid) (batchMs : ℚ → ℚ → Nat)
    (call : StripeCall ℚ) :
    stripePickLeg batchMs s call = (stripeDrawByWeight s call.legDraw, s) := by
  unfold stripePickLeg
  split
  · rename_i hk
    subst hk
    rw [Subsingleton.elim 0 (stripeDrawByWeight s call.legDraw)]
  · rw [hpolicy]

theorem stripePicks_iid (hpolicy : s.policy = .iid) (batchMs : ℚ → ℚ → Nat)
    (calls : List (StripeCall ℚ)) :
    (stripePicks batchMs calls s).1 = calls.map fun call => stripeDrawByWeight s call.legDraw := by
  induction calls with
  | nil => rfl
  | cons call calls ih =>
    rw [stripePicks, stripePickLeg_iid hpolicy, List.map_cons, ← ih]

/-- The values of the 32-bit draws behind `n` packets that send them over the legs `legs` number
the product of those that give each of the legs, and these are the share of the 2 ^ 32 that the
given weights allot the leg, to within one. -/
theorem iid_legs_by_weight (hnonneg : ∀ x ∈ list, 0 ≤ x) (hstart : s.Configured list)
    (hpolicy : s.policy = .iid) (batchMs : ℚ → ℚ → Nat) :
    (∀ i, |((legDraws s i).card : ℚ) -
      2 ^ 32 * (givenWeight k list i / ∑ j, givenWeight k list j)| ≤ 1) ∧
    ∀ (n : Nat) (nowMs : Fin n → Nat) (batchDraw : Fin n → ℚ) (legs : Fin n → Fin k),
      {draws | (stripePicks batchMs (drawnCalls nowMs batchDraw draws) s).1 =
        List.ofFn legs}.ncard = ∏ t, (legDraws s (legs t)).card := by
  constructor
  · intro i
    rw [← (stripeWeights_some hstart.weights).2]
    exact card_legDraws hstart hnonneg i
  · intro n nowMs batchDraw legs
    have hset : {draws | (stripePicks batchMs (drawnCalls nowMs batchDraw draws) s).1 =
        List.ofFn legs} = (Fintype.piFinset fun t => legDraws s (legs t)) := by
      ext draws
      rw [Set.mem_ofPred_eq, stripePicks_iid hpolicy, drawnCalls, List.map_ofFn,
        List.ofFn_injective.eq_iff, Finset.mem_coe, Fintype.mem_piFinset, funext_iff]
      apply forall_congr'
      intro t
      rw [legDraws, Finset.mem_filter_univ]
      rfl
    rw [hset, Set.ncard_coe_finset, Fintype.card_piFinset]

/-- Two legs, given the weights 3 and 1. -/
def threeToOne : Striping ℚ 2 :=
  .twoLegs .iid false fun i => ⟨if i.1 = 0 then 3 / 4 else 1 / 4, 0, 0, RingBuffer.empty 0⟩

theorem iid_legs_by_weight_threeToOne :
    |((legDraws threeToOne 0).card : ℚ) - 2 ^ 32 * (3 / 4)| ≤ 1 := by
  have hconfig : threeToOne.Configured [3, 1] := ⟨by decide +kernel, rfl⟩
  have hshare : givenWeight 2 [3, 1] 0 / ∑ j, givenWeight 2 [3, 1] j = 3 / 4 := by
    rw [Fin.sum_univ_two]
    decide +kernel
  have hlegs := (iid_legs_by_weight (by decide +kernel) hconfig rfl fun _ _ => 0).1 0
  rwa [hshare] at hlegs

end AnonSecNet.Client
