import AnonSecNet.Foundation.Inversion
import AnonSecNet.Foundation.QueueMerges
import AnonSecNet.MixNode.PoolMixing
import Mathlib.Data.Set.Card

/-! How likely the orders are in which `pool_mix_shuffle_stratified` releases a batch: how many of
the values of its random words give each of them. -/
namespace AnonSecNet.MixNode
open Inversion LinkedQueues

def Pool.indices (batch : Pool) : List (Fin poolMixMaxBatch) :=
  (List.finRange batch.count).map batch.cell

def Pool.stratum (batch : Pool) (i : Fin poolMixMaxBatch) : Fin maxSessions :=
  poolMixStratum (batch.cells i).sessIdx

/-- The places in the batch of the entries that the shuffle puts out. -/
def poolMixOrder (nextLink : Fin poolMixMaxBatch → Option (Fin poolMixMaxBatch))
    (draws : Nat → UInt32) (fuel : Nat) (batch : Pool) : Option (List (Fin poolMixMaxBatch)) :=
  shuffle maxSessions batch.stratum nextLink (fun n nActive => poolMixPick (draws n) nActive) fuel
    batch.indices

theorem poolMixShuffleStratified_eq
    (nextLink : Fin poolMixMaxBatch → Option (Fin poolMixMaxBatch)) (draws : Nat → UInt32)
    (fuel : Nat) (batch : Pool) :
    poolMixShuffleStratified nextLink draws fuel batch =
      (poolMixOrder nextLink draws fuel batch).map fun order => order.map batch.cells :=
  rfl

/-! One pick. -/

theorem poolMixPick_eq_iff (draw : UInt32) {nActive p : Nat} (h : 0 < nActive) :
    poolMixPick draw nActive = p ↔
      p * 2 ^ 32 ≤ draw.toNat * nActive ∧ draw.toNat * nActive < (p + 1) * 2 ^ 32 := by
  have hlt : draw.toNat * nActive / 2 ^ 32 < nActive := by
    rw [Nat.div_lt_iff_lt_mul (by norm_num), Nat.mul_comm]
    exact Nat.mul_lt_mul_of_pos_left draw.toNat_lt h
  unfold poolMixPick
  dsimp only
  rw [if_neg (not_le.mpr hlt), Nat.div_eq_iff (by norm_num)]
  omega

theorem ncard_poolMixPick {nActive p : Nat} (hp : p < nActive) :
    |({draw | poolMixPick draw nActive = p}.ncard : ℚ) - 2 ^ 32 / nActive| ≤ 1 := by
  have hpos : 0 < nActive := Nat.zero_lt_of_lt hp
  have hpos' : (0 : ℚ) < nActive := by exact_mod_cast hpos
  have himage : UInt32.toNat '' {draw | poolMixPick draw nActive = p} =
      ((Finset.range (2 ^ 32)).filter fun m =>
        p * 2 ^ 32 ≤ m * nActive ∧ m * nActive < (p + 1) * 2 ^ 32 : Finset Nat) := by
    ext m
    simp only [Set.mem_image, Set.mem_ofPred_eq, Finset.coe_filter, Finset.mem_range]
    constructor
    · intro h
      obtain ⟨draw, hdraw, rfl⟩ := h
      exact ⟨draw.toNat_lt, (poolMixPick_eq_iff draw hpos).mp hdraw⟩
    · intro h
      have hm : (UInt32.ofNat m).toNat = m := UInt32.toNat_ofNat_of_lt' h.1
      refine ⟨UInt32.ofNat m, (poolMixPick_eq_iff _ hpos).mpr ?_, hm⟩
      rw [hm]
      exact h.2
  have hinj : Function.Injective UInt32.toNat := fun _ _ => UInt32.toNat_inj.mp
  rw [← Set.ncard_image_of_injective _ hinj, himage, Set.ncard_coe_finset]
  have hlength : (2 : ℚ) ^ 32 / nActive =
      ((p + 1) * 2 ^ 32 : Nat) / nActive - (p * 2 ^ 32 : Nat) / nActive := by
    push_cast
    ring
  rw [hlength]
  apply card_between (by positivity)
  · apply div_le_div_of_nonneg_right _ hpos'.le
    exact_mod_cast Nat.mul_le_mul_right _ (Nat.le_succ p)
  · intro m hm
    obtain ⟨-, hlow, hhigh⟩ := Finset.mem_filter.mp hm
    rw [div_le_iff₀ hpos', le_div_iff₀ hpos']
    exact ⟨by exact_mod_cast hlow, by exact_mod_cast hhigh.le⟩
  · intro m hlow hhigh
    rw [div_lt_iff₀ hpos'] at hlow
    rw [lt_div_iff₀ hpos'] at hhigh
    have hlow : p * 2 ^ 32 < m * nActive := by exact_mod_cast hlow
    have hhigh : m * nActive < (p + 1) * 2 ^ 32 := by exact_mod_cast hhigh
    have hm : m < 2 ^ 32 := by
      have hlt : m * nActive < 2 ^ 32 * nActive := by
        calc
          _ < (p + 1) * 2 ^ 32 := hhigh
          _ ≤ nActive * 2 ^ 32 := Nat.mul_le_mul_right _ hp
          _ = 2 ^ 32 * nActive := Nat.mul_comm _ _
      exact Nat.lt_of_mul_lt_mul_right hlt
    exact Finset.mem_filter.mpr ⟨Finset.mem_range.mpr hm, hlow.le, hhigh⟩

/-! A whole batch. -/

/-- The words that are drawn for a batch of `n`. -/
def drawnWords {n : Nat} (words : Fin n → UInt32) (t : Nat) : UInt32 :=
  if h : t < n then words ⟨t, h⟩ else 0

theorem Pool.indices_length (batch : Pool) : batch.indices.length = batch.count := by
  rw [Pool.indices, List.length_map, List.length_finRange]

section
variable (nextLink : Fin poolMixMaxBatch → Option (Fin poolMixMaxBatch)) {batch : Pool}

/-- Of the values of the random words, an order takes up one in as many as there are sessions with
packets left, packet for packet. -/
theorem order_count {n : Nat} (hn : batch.count = n) {order : List (Fin poolMixMaxBatch)}
    (hkeeps : ∀ k, queue batch.stratum order k = queue batch.stratum batch.indices k) :
    ∃ values : Fin n → Nat,
      (∀ t, |(values t : ℚ) - 2 ^ 32 / keysLeft batch.stratum (order.drop t)| ≤ 1) ∧
      {words : Fin n → UInt32 |
        poolMixOrder nextLink (drawnWords words) n batch = some order}.ncard = ∏ t, values t := by
  subst hn
  have hcap : Fintype.card (Fin maxSessions) ≤ maxSessions := (Fintype.card_fin maxSessions).le
  obtain ⟨pos, hpos, hiff⟩ := shuffle_iff hcap batch.stratum nextLink batch.cells_nodup hkeeps
  rw [← Pool.indices, batch.indices_length] at hpos hiff
  refine ⟨fun t => {draw |
    poolMixPick draw (keysLeft batch.stratum (order.drop t)) = pos t}.ncard,
    fun t => ncard_poolMixPick (hpos t t.isLt), ?_⟩
  rw [← ncard_draws]
  congr 1
  ext words
  rw [Set.mem_ofPred_eq, Set.mem_ofPred_eq]
  apply (hiff _ (fun n _ h => poolMixPick_lt (drawnWords words n) h) batch.count le_rfl).trans
  constructor
  · intro hall t
    have hword := hall t t.isLt
    rwa [drawnWords, dif_pos t.isLt] at hword
  · intro hall t ht
    rw [drawnWords, dif_pos ht]
    exact hall ⟨t, ht⟩

theorem value_bounds {v k q : Nat} (hq : (2 : ℚ) ^ 32 / k = q) (h : |(v : ℚ) - 2 ^ 32 / k| ≤ 1) :
    q ≤ v + 1 ∧ v ≤ q + 1 := by
  rw [hq, abs_le] at h
  constructor
  · have hle : (q : ℚ) ≤ v + 1 := by linarith [h.1]
    exact_mod_cast hle
  · have hle : (v : ℚ) ≤ q + 1 := by linarith [h.2]
    exact_mod_cast hle

/-- A packet that is alone in its session comes out before the two of another one for more values
than between them. -/
theorem alone_first_likelier {a b c : Fin poolMixMaxBatch} (hbatch : batch.indices = [a, b, c])
    (hsame : batch.stratum b = batch.stratum a) (hother : batch.stratum c ≠ batch.stratum a) :
    {words : Fin 3 → UInt32 |
        poolMixOrder nextLink (drawnWords words) 3 batch = some [a, c, b]}.ncard <
      {words : Fin 3 → UInt32 |
        poolMixOrder nextLink (drawnWords words) 3 batch = some [c, a, b]}.ncard := by
  have hcount : batch.count = 3 := by
    rw [← batch.indices_length, hbatch]
    rfl
  have hqueue : ∀ k, queue batch.stratum [a, c, b] k = queue batch.stratum batch.indices k ∧
      queue batch.stratum [c, a, b] k = queue batch.stratum batch.indices k := by
    intro k
    rw [hbatch]
    simp only [queue, List.filter_cons, hsame]
    by_cases ha : batch.stratum a = k
    · have hc : batch.stratum c ≠ k := ha ▸ hother
      simp [ha, hc]
    · simp [ha]
  obtain ⟨between, hbetween, hcard⟩ := order_count nextLink hcount fun k => (hqueue k).1
  obtain ⟨first, hfirst, hcard'⟩ := order_count nextLink hcount fun k => (hqueue k).2
  have hleft : keysLeft batch.stratum [a, c, b] = 2 ∧ keysLeft batch.stratum [c, b] = 2 ∧
      keysLeft batch.stratum [c, a, b] = 2 ∧ keysLeft batch.stratum [a, b] = 1 ∧
      keysLeft batch.stratum [b] = 1 := by
    simp [keysLeft, hsame, hother]
  obtain ⟨hacb, hcb, hcab, hab, hb⟩ := hleft
  have hbetween0 := (value_bounds (k := 2) (q := 2 ^ 31) (by norm_num) (hacb ▸ hbetween 0)).2
  have hbetween1 := (value_bounds (k := 2) (q := 2 ^ 31) (by norm_num) (hcb ▸ hbetween 1)).2
  have hbetween2 := (value_bounds (k := 1) (q := 2 ^ 32) (by norm_num) (hb ▸ hbetween 2)).2
  have hfirst0 := (value_bounds (k := 2) (q := 2 ^ 31) (by norm_num) (hcab ▸ hfirst 0)).1
  have hfirst1 := (value_bounds (k := 1) (q := 2 ^ 32) (by norm_num) (hab ▸ hfirst 1)).1
  have hfirst2 := (value_bounds (k := 1) (q := 2 ^ 32) (by norm_num) (hb ▸ hfirst 2)).1
  rw [hcard, hcard', Fin.prod_univ_three, Fin.prod_univ_three]
  calc
    between 0 * between 1 * between 2 ≤ (2 ^ 31 + 1) * (2 ^ 31 + 1) * (2 ^ 32 + 1) :=
      Nat.mul_le_mul (Nat.mul_le_mul hbetween0 hbetween1) hbetween2
    _ < (2 ^ 31 - 1) * (2 ^ 32 - 1) * (2 ^ 32 - 1) := by norm_num
    _ ≤ first 0 * first 1 * first 2 :=
      Nat.mul_le_mul (Nat.mul_le_mul (by omega) (by omega)) (by omega)

end

/-- The orders that can come out are those that keep each session's packets in theirs. Of the
values of the random words each of them takes up, packet for packet, one in as many as there are
sessions with packets left: a session's share of the next place does not depend on how many. -/
theorem release_orders (nextLink : Fin poolMixMaxBatch → Option (Fin poolMixMaxBatch))
    (batch : Pool) :
    (∀ (draws : Nat → UInt32) (fuel : Nat),
      poolMixShuffleStratified nextLink draws fuel batch =
        (poolMixOrder nextLink draws fuel batch).map fun order => order.map batch.cells) ∧
    (∀ (draws : Nat → UInt32) (fuel : Nat) (order : List (Fin poolMixMaxBatch)),
      batch.count ≤ fuel → poolMixOrder nextLink draws fuel batch = some order →
        ∀ k, queue batch.stratum order k = queue batch.stratum batch.indices k) ∧
    ∀ order : List (Fin poolMixMaxBatch),
      (∀ k, queue batch.stratum order k = queue batch.stratum batch.indices k) →
        ∃ values : Fin batch.count → Nat,
          (∀ t, |(values t : ℚ) - 2 ^ 32 / keysLeft batch.stratum (order.drop t)| ≤ 1) ∧
          {words : Fin batch.count → UInt32 |
            poolMixOrder nextLink (drawnWords words) batch.count batch = some order}.ncard =
              ∏ t, values t := by
  refine ⟨fun draws fuel => poolMixShuffleStratified_eq nextLink draws fuel batch,
    fun draws fuel order hfuel horder => ?_, fun order hkeeps => order_count nextLink rfl hkeeps⟩
  rw [← batch.indices_length] at hfuel
  obtain ⟨out, hout, -, hqueues⟩ :=
    shuffle_spec (Fintype.card_fin maxSessions).le batch.stratum nextLink
      (fun n _ h => poolMixPick_lt (draws n) h) batch.cells_nodup hfuel
  obtain rfl := Option.some.inj (hout.symm.trans horder)
  exact hqueues

end AnonSecNet.MixNode
