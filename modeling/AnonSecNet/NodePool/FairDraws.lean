import AnonSecNet.Foundation.Inversion
import AnonSecNet.NodePool.Draws
import Mathlib.Algebra.BigOperators.Group.Finset.Basic
import Mathlib.Data.Set.Card

/-! How many states of the generator give a node or a guard, the arithmetic on `double` taken to
be exact. -/
namespace AnonSecNet.NodePool
open Inversion

abbrev exactDoubles : Doubles where
  D := ℚ
  ofNat n := n
  add := (· + ·)
  mul := (· * ·)
  div := (· / ·)
  le a b := a ≤ b
  trunc a := a.floor.toNat

/-! The generator gives every value from one state. -/

theorem xorShift_injective {k : UInt64} (h0 : 0 < k.toNat) (h64 : k.toNat < 64) :
    Function.Injective fun x : UInt64 => x ^^^ (x >>> k) := by
  intro x y h
  have hshift : (x ^^^ y) >>> k = x ^^^ y := by
    rw [UInt64.shiftRight_xor]
    have hflip : x ^^^ (x ^^^ (x >>> k)) ^^^ (y >>> k) = x ^^^ (y ^^^ (y >>> k)) ^^^ (y >>> k) :=
      congrArg (fun z => x ^^^ z ^^^ (y >>> k)) h
    rwa [← UInt64.xor_assoc, UInt64.xor_self, UInt64.zero_xor, UInt64.xor_assoc,
      UInt64.xor_assoc y, UInt64.xor_self, UInt64.xor_zero] at hflip
  have hnat := congrArg UInt64.toNat hshift
  rw [UInt64.toNat_shiftRight, Nat.mod_eq_of_lt h64, Nat.shiftRight_eq_div_pow] at hnat
  have hzero : (x ^^^ y).toNat = 0 := by
    by_contra hne
    have hpow : 1 < 2 ^ k.toNat := Nat.one_lt_two_pow h0.ne'
    exact absurd hnat (Nat.div_lt_self (Nat.pos_of_ne_zero hne) hpow).ne
  exact UInt64.xor_eq_zero_iff.mp (UInt64.toNat_inj.mp hzero)

theorem mul_injective {c d : UInt64} (h : c * d = 1) :
    Function.Injective fun x : UInt64 => x * c := by
  intro x y hxy
  calc
    x = x * c * d := by rw [UInt64.mul_assoc, h, UInt64.mul_one]
    _ = y * c * d := congrArg (· * d) hxy
    _ = y := by rw [UInt64.mul_assoc, h, UInt64.mul_one]

theorem splitmix64_injective : Function.Injective fun rng => (splitmix64Next rng).1 := by
  intro x y h
  have hlast := xorShift_injective (k := 31) (by decide) (by decide) h
  have hsecond := mul_injective (c := 0x94D049BB133111EB) (d := 0x319642B2D24D8EC3) (by decide)
    hlast
  have hmiddle := xorShift_injective (k := 27) (by decide) (by decide) hsecond
  have hfirst := mul_injective (c := 0xBF58476D1CE4E5B9) (d := 0x96DE1B173F119089) (by decide)
    hmiddle
  have hadd := xorShift_injective (k := 30) (by decide) (by decide) hfirst
  exact (UInt64.add_left_inj _).mp hadd

theorem splitmix64_surjective (n : Nat) (hn : n < 2 ^ 64) :
    ∃ rng, (splitmix64Next rng).1.toNat = n := by
  have hfinite : Finite UInt64 := Finite.of_injective UInt64.toFin fun _ _ => UInt64.toFin_inj.mp
  obtain ⟨rng, hrng⟩ := Finite.injective_iff_surjective.mp splitmix64_injective (UInt64.ofNat n)
  refine ⟨rng, ?_⟩
  have hnat := congrArg UInt64.toNat hrng
  rwa [UInt64.toNat_ofNat_of_lt' hn] at hnat

theorem card_filter_div {a : Nat} (ha : 0 < a) (b : Nat) (P : Nat → Prop) [DecidablePred P] :
    ((Finset.range (a * b)).filter fun n => P (n / a)).card =
      a * ((Finset.range b).filter P).card := by
  induction b with
  | zero => rfl
  | succ b ih =>
    have hblock : ∀ i ∈ Finset.range a,
        (if P ((a * b + i) / a) then 1 else 0) = if P b then 1 else 0 := by
      intro i hi
      rw [Nat.mul_add_div ha, Nat.div_eq_of_lt (Finset.mem_range.mp hi), Nat.add_zero]
    rw [Finset.card_filter] at ih ⊢
    rw [Nat.mul_succ, Finset.sum_range_add, ih, Finset.sum_const_nat hblock, Finset.card_range,
      Finset.card_filter, Finset.card_filter, Finset.sum_range_succ, Nat.mul_add]

/-- A value of 53 bits is drawn from 2048 states. -/
theorem ncard_states (P : Nat → Prop) [DecidablePred P] :
    {rng | P (uniformBits rng)}.ncard = 2 ^ 11 * ((Finset.range (2 ^ 53)).filter P).card := by
  have himage : (fun rng => (splitmix64Next rng).1.toNat) '' {rng | P (uniformBits rng)} =
      ((Finset.range (2 ^ 11 * 2 ^ 53)).filter fun n => P (n / 2 ^ 11) : Finset Nat) := by
    ext n
    simp only [Set.mem_image, Set.mem_ofPred_eq, Finset.coe_filter, Finset.mem_range]
    have hbits (rng : UInt64) : uniformBits rng = (splitmix64Next rng).1.toNat / 2 ^ 11 := by
      unfold uniformBits
      rw [UInt64.toNat_shiftRight, Nat.shiftRight_eq_div_pow]
      rfl
    constructor
    · intro h
      obtain ⟨rng, hrng, rfl⟩ := h
      rw [hbits] at hrng
      exact ⟨(splitmix64Next rng).1.toNat_lt, hrng⟩
    · intro h
      obtain ⟨rng, rfl⟩ := splitmix64_surjective n h.1
      exact ⟨rng, by rw [hbits]; exact h.2, rfl⟩
  have hinj : Function.Injective fun rng => (splitmix64Next rng).1.toNat := fun _ _ h =>
    splitmix64_injective (UInt64.toNat_inj.mp h)
  rw [← Set.ncard_image_of_injective _ hinj, himage, Set.ncard_coe_finset,
    card_filter_div (by norm_num)]

/-! A draw in exact arithmetic ends with its first attempt. -/

variable {weight : Node → ℚ}

theorem exact_uniform (rng : UInt64) :
    rngUniform01 exactDoubles rng =
      ((uniformBits rng : ℚ) / (2 ^ 53 : Nat), (splitmix64Next rng).2) := by
  have hvalue : ((((splitmix64Next rng).1 >>> 11).toNat : ℚ) *
      ((1 : Nat) / (9007199254740992 : Nat)) : ℚ) =
        (uniformBits rng : ℚ) / (2 ^ 53 : Nat) := by
    rw [Nat.cast_one, mul_one_div]
    rfl
  exact congrArg (·, (splitmix64Next rng).2) hvalue

theorem exact_firstReaching (target cum : ℚ) (nodes : List Node) :
    firstReaching exactDoubles weight target cum nodes =
      pick (target ≤ ·) weight cum nodes := by
  induction nodes generalizing cum with
  | nil => rfl
  | cons node nodes ih =>
    have hle : (exactDoubles.le target (cum + weight node) = true) = (target ≤ cum + weight node) :=
      decide_eq_true_eq
    change (if exactDoubles.le target (cum + weight node) = true then some node
      else firstReaching exactDoubles weight target (cum + weight node) nodes) = _
    rw [ih, pick]
    simp only [hle]

theorem exact_totalWeight (nodes : List Node) :
    totalWeight exactDoubles weight nodes = mass weight nodes := by
  change nodes.foldl (fun total node => total + weight node) ((0 : Nat) : ℚ) = _
  rw [mass, List.sum_eq_foldl, List.foldl_map, Nat.cast_zero]

theorem mass_pos (hweight : ∀ node, 0 < weight node) {nodes : List Node} (hne : nodes ≠ []) :
    0 < mass weight nodes := by
  obtain ⟨node, rest, rfl⟩ := List.exists_cons_of_ne_nil hne
  rw [mass, List.map_cons, List.sum_cons]
  exact add_pos_of_pos_of_nonneg (hweight node) (mass_nonneg fun b _ => (hweight b).le)

theorem drawAttempts_first {F : Doubles} {weight : Node → F.D} {total : F.D} {nodes : List Node}
    {rng : UInt64} {node : Node} (attempts : Nat)
    (h : firstReaching F weight (F.mul (rngUniform01 F rng).1 total) (F.ofNat 0) nodes =
      some node) :
    drawAttempts F weight total nodes (attempts + 1) rng = some (node, (rngUniform01 F rng).2) := by
  rw [drawAttempts]
  dsimp only
  rw [h]

theorem exact_draw (hweight : ∀ node, 0 < weight node) {excl₁ excl₂ : List Node}
    (hne : notExcluded excl₁ excl₂ ≠ []) (rng : UInt64) :
    (weightedDrawExcluding exactDoubles weight rng excl₁ excl₂).map Prod.fst =
      pick ((uniformBits rng : ℚ) / (2 ^ 53 : Nat) * mass weight (notExcluded excl₁ excl₂) ≤ ·)
        weight 0 (notExcluded excl₁ excl₂) := by
  have hpos := mass_pos hweight hne
  have htarget : (uniformBits rng : ℚ) / (2 ^ 53 : Nat) * mass weight (notExcluded excl₁ excl₂) ≤
      mass weight (notExcluded excl₁ excl₂) := by
    apply mul_le_of_le_one_left hpos.le
    rw [div_le_one (by norm_num)]
    exact_mod_cast (uniformBits_lt rng).le
  have hsome : (pick ((uniformBits rng : ℚ) / (2 ^ 53 : Nat) *
      mass weight (notExcluded excl₁ excl₂) ≤ ·) weight 0 (notExcluded excl₁ excl₂)).isSome := by
    apply pick_isSome hne
    rwa [zero_add]
  obtain ⟨node, hnode⟩ := Option.isSome_iff_exists.mp hsome
  have hnot : ¬ exactDoubles.le (totalWeight exactDoubles weight (notExcluded excl₁ excl₂))
      (exactDoubles.ofNat 0) = true := by
    rw [exact_totalWeight]
    intro hle
    have hzero : mass weight (notExcluded excl₁ excl₂) ≤ ((0 : Nat) : ℚ) := of_decide_eq_true hle
    rw [Nat.cast_zero] at hzero
    exact absurd hzero (not_le.mpr hpos)
  have hfirst : firstReaching exactDoubles weight
      (exactDoubles.mul ((uniformBits rng : ℚ) / (2 ^ 53 : Nat) : ℚ)
        (totalWeight exactDoubles weight (notExcluded excl₁ excl₂))) (exactDoubles.ofNat 0)
          (notExcluded excl₁ excl₂) = some node := by
    rw [exact_totalWeight, ← hnode, ← exact_firstReaching]
    congr 1
  unfold weightedDrawExcluding
  dsimp only
  rw [if_neg hnot, drawAttempts_first 9999 (by rw [exact_uniform]; exact hfirst), hnode]
  rfl

/-! Counting the states. -/

/-- From 53 bits to the states. -/
theorem states_within (drawn : Nat → Prop) [DecidablePred drawn] {share : ℚ}
    (h : |(((Finset.range (2 ^ 53)).filter drawn).card : ℚ) - (2 ^ 53 : Nat) * share| ≤ 1) :
    |({rng | drawn (uniformBits rng)}.ncard : ℚ) - 2 ^ 64 * share| ≤ 2 ^ 11 := by
  rw [ncard_states, Nat.cast_mul]
  generalize (((Finset.range (2 ^ 53)).filter drawn).card : ℚ) = count at h ⊢
  have hscale : ((2 ^ 11 : Nat) : ℚ) * count - 2 ^ 64 * share =
      2 ^ 11 * (count - (2 ^ 53 : Nat) * share) := by
    push_cast
    ring
  rw [hscale, abs_mul, abs_of_pos (by norm_num)]
  exact mul_le_of_le_one_right (by norm_num) h

theorem node_states (hweight : ∀ node, 0 < weight node) {excl₁ excl₂ : List Node} {node : Node}
    (h₁ : node ∉ excl₁) (h₂ : node ∉ excl₂) :
    |({rng | ∃ rng', weightedDrawExcluding exactDoubles weight rng excl₁ excl₂ =
        some (node, rng')}.ncard : ℚ) -
      2 ^ 64 * (weight node / mass weight (notExcluded excl₁ excl₂))| ≤ 2 ^ 11 := by
  have hmem : node ∈ notExcluded excl₁ excl₂ := mem_notExcluded.mpr ⟨h₁, h₂⟩
  have hne := List.ne_nil_of_mem hmem
  have hnodup : (notExcluded excl₁ excl₂).Nodup := (List.nodup_finRange poolSize).filter _
  set nodes := notExcluded excl₁ excl₂ with hnodes
  have hset : {rng | ∃ rng', weightedDrawExcluding exactDoubles weight rng excl₁ excl₂ =
      some (node, rng')} =
        {rng | pick ((uniformBits rng : ℚ) / (2 ^ 53 : Nat) * mass weight nodes ≤ ·) weight 0
          nodes = some node} := by
    ext rng
    rw [Set.mem_ofPred_eq, Set.mem_ofPred_eq, ← exact_draw hweight hne, Option.map_eq_some_iff]
    constructor
    · intro h
      obtain ⟨rng', hrng'⟩ := h
      exact ⟨(node, rng'), hrng', rfl⟩
    · intro h
      obtain ⟨⟨_, rng'⟩, hrng', rfl⟩ := h
      exact ⟨rng', hrng'⟩
  rw [hset]
  apply states_within fun m =>
    pick ((m : ℚ) / (2 ^ 53 : Nat) * mass weight nodes ≤ ·) weight 0 nodes = some node
  exact card_picks (by norm_num) hnodup (fun b _ => (hweight b).le) (mass_pos hweight hne)
    (fun m c => (m : ℚ) / (2 ^ 53 : Nat) * mass weight nodes ≤ c) (fun _ _ => id)
    (fun _ _ hskip => (not_le.mp hskip).le) hmem

theorem pickEntry_fst (F : Doubles) (guards : GuardSet) (rng : UInt64) :
    (pickEntry F guards rng).1 =
      guards.1[if F.trunc (F.mul (rngUniform01 F rng).1 (F.ofNat guards.1.length)) ≥
          guards.1.length then guards.1.length - 1
        else F.trunc (F.mul (rngUniform01 F rng).1 (F.ofNat guards.1.length))]? :=
  rfl

theorem exact_index (u n : ℚ) : exactDoubles.trunc (exactDoubles.mul u n) = ⌊u * n⌋₊ := rfl

theorem guard_states {guards : GuardSet} (hnodup : guards.1.Nodup) {node : Node}
    (hmem : node ∈ guards.1) :
    |({rng | (pickEntry exactDoubles guards rng).1 = some node}.ncard : ℚ) -
      2 ^ 64 * (1 / guards.1.length)| ≤ 2 ^ 11 := by
  obtain ⟨i, hi, hget⟩ := List.mem_iff_getElem.mp hmem
  have hpos : (0 : ℚ) < guards.1.length := by exact_mod_cast Nat.zero_lt_of_lt hi
  have hset : {rng | (pickEntry exactDoubles guards rng).1 = some node} =
      {rng | ⌊(uniformBits rng : ℚ) / (2 ^ 53 : Nat) * guards.1.length⌋₊ = i} := by
    ext rng
    set idx := ⌊(uniformBits rng : ℚ) / (2 ^ 53 : Nat) * guards.1.length⌋₊ with hidx
    have hlt : idx < guards.1.length := by
      rw [hidx, Nat.floor_lt (mul_nonneg (div_nonneg (Nat.cast_nonneg _) (Nat.cast_nonneg _))
        hpos.le)]
      apply mul_lt_of_lt_one_left hpos
      rw [div_lt_one (by norm_num)]
      exact_mod_cast uniformBits_lt rng
    have hpick : (pickEntry exactDoubles guards rng).1 = guards.1[idx]? := by
      have htrunc : exactDoubles.trunc (exactDoubles.mul (rngUniform01 exactDoubles rng).1
          (exactDoubles.ofNat guards.1.length)) = idx := by
        rw [exact_uniform]
        exact exact_index _ _
      rw [pickEntry_fst, htrunc, if_neg (by omega)]
    rw [Set.mem_ofPred_eq, Set.mem_ofPred_eq, hpick, List.getElem?_eq_getElem hlt, Option.some_inj,
      ← hget]
    exact hnodup.getElem_inj_iff
  rw [hset]
  apply states_within fun m => ⌊(m : ℚ) / (2 ^ 53 : Nat) * guards.1.length⌋₊ = i
  have hnonneg (m : Nat) : (0 : ℚ) ≤ m / (2 ^ 53 : Nat) * guards.1.length :=
    mul_nonneg (div_nonneg (Nat.cast_nonneg _) (Nat.cast_nonneg _)) hpos.le
  apply card_draws (by norm_num) hpos (Nat.cast_nonneg i) zero_le_one
    (by exact_mod_cast hi)
  · intro m _ hdrawn
    obtain ⟨hlo, hhi⟩ := (Nat.floor_eq_iff (hnonneg m)).mp hdrawn
    exact ⟨hlo, hhi.le⟩
  · intro m _ hlo hhi
    exact (Nat.floor_eq_iff (hnonneg m)).mpr ⟨hlo.le, hhi⟩

/-- Of the 2 ^ 64 states, each node that is not excluded is drawn from its share by bandwidth,
and each guard of a set picked from an equal share, to within the 2048 states of one value. -/
theorem draws_proportional (weight : Node → ℚ) (hweight : ∀ node, 0 < weight node) :
    (∀ (excl₁ excl₂ : List Node) (node : Node), node ∉ excl₁ → node ∉ excl₂ →
      |({rng | ∃ rng', weightedDrawExcluding exactDoubles weight rng excl₁ excl₂ =
          some (node, rng')}.ncard : ℚ) -
        2 ^ 64 * (weight node / mass weight (notExcluded excl₁ excl₂))| ≤ 2 ^ 11) ∧
    ∀ guards : GuardSet, guards.1.Nodup → ∀ node ∈ guards.1,
      |({rng | (pickEntry exactDoubles guards rng).1 = some node}.ncard : ℚ) -
        2 ^ 64 * (1 / guards.1.length)| ≤ 2 ^ 11 :=
  ⟨fun _ _ _ h₁ h₂ => node_states hweight h₁ h₂, fun _ hnodup _ hmem => guard_states hnodup hmem⟩

theorem firstGuards_size : ((List.finRange poolSize).take guardSetSize).length ≤ guardSetSize :=
  List.length_take_le guardSetSize (List.finRange poolSize)

def firstGuards : GuardSet := ⟨(List.finRange poolSize).take guardSetSize, firstGuards_size⟩

theorem six_le_poolSize : 6 ≤ poolSize := by decide

def earlyNode (i : Fin 6) : Node := Fin.castLE six_le_poolSize i

/-- The weight of a node grows with its index. -/
def rankWeight (node : Node) : ℚ := node.val + 1

theorem rankWeight_pos (node : Node) : 0 < rankWeight node := by
  unfold rankWeight
  positivity

/-- The sixth node, when three lighter ones are excluded, and the third of three guards. -/
theorem draws_proportional_rank :
    |({rng | ∃ rng', weightedDrawExcluding exactDoubles rankWeight rng [earlyNode 0, earlyNode 2]
        [earlyNode 3] = some (earlyNode 5, rng')}.ncard : ℚ) - 2 ^ 64 * (6 / 5042)| ≤ 2 ^ 11 ∧
    |({rng | (pickEntry exactDoubles firstGuards rng).1 = some (earlyNode 2)}.ncard : ℚ) -
      2 ^ 64 * (1 / (3 : Nat))| ≤ 2 ^ 11 := by
  obtain ⟨hdraw, hpick⟩ := draws_proportional rankWeight rankWeight_pos
  have hshare : rankWeight (earlyNode 5) /
      mass rankWeight (notExcluded [earlyNode 0, earlyNode 2] [earlyNode 3]) = 6 / 5042 := by
    decide +kernel
  rw [← hshare]
  exact ⟨hdraw _ _ (earlyNode 5) (by decide) (by decide),
    hpick firstGuards (by decide) (earlyNode 2) (by decide)⟩

end AnonSecNet.NodePool
