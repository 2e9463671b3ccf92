import AnonSecNet.NodePool
import Mathlib.Data.Rat.Floor
import Mathlib.Tactic.Linarith
import Mathlib.Tactic.Positivity

/-! The draws in rounded arithmetic: with positive weights they succeed, and every guard is
picked from some state of the generator. -/
namespace AnonSecNet.NodePool

/-- No value lies strictly between `q` and what it is rounded to. -/
def RoundsTo {D : Type} (val : D → ℚ) (q : ℚ) (r : D) : Prop :=
  ∀ d, (val d ≤ q → val d ≤ val r) ∧ (q ≤ val d → val r ≤ val d)

theorem RoundsTo.exact {D : Type} {val : D → ℚ} {q : ℚ} {r d : D} (h : RoundsTo val q r)
    (hd : val d = q) : val r = q := by
  obtain ⟨hlo, hhi⟩ := h d
  exact le_antisymm ((hhi hd.ge).trans hd.le) (hd.ge.trans (hlo hd.le))

/-- The finite doubles, `val` being the value of one: the operations round, short of an
overflow, and short numbers with a small exponent are among the values. -/
structure Doubles.Rounds (F : Doubles) (val : F.D → ℚ) : Prop where
  dyadic : ∀ m k : Nat, m ≤ 2 ^ 53 → k ≤ 200 → ∃ d, val d = m / 2 ^ k
  power : ∀ k : Nat, k ≤ 200 → ∃ d, val d = 2 ^ k
  ofNat : ∀ n : Nat, n ≤ 2 ^ 53 → val (F.ofNat n) = n
  add : ∀ x y, |val x + val y| ≤ 2 ^ 200 → RoundsTo val (val x + val y) (F.add x y)
  mul : ∀ x y, |val x * val y| ≤ 2 ^ 200 → RoundsTo val (val x * val y) (F.mul x y)
  div : ∀ x y, val y ≠ 0 → |val x / val y| ≤ 2 ^ 200 → RoundsTo val (val x / val y) (F.div x y)
  le : ∀ x y, F.le x y = true ↔ val x ≤ val y
  trunc : ∀ x, 0 ≤ val x → val x < 2 ^ 31 → F.trunc x = ⌊val x⌋₊

/-- The bounds of `consensus_generate`: a uniform draw to the power -2/3, the draw at least
`1e-9`. -/
def Weighted {F : Doubles} (val : F.D → ℚ) (weight : Node → F.D) : Prop :=
  ∀ node, 0 < val (weight node) ∧ val (weight node) ≤ 2 ^ 20

section
variable {F : Doubles} {weight : Node → F.D} {val : F.D → ℚ}

/-! The weights. -/

theorem add_weight (hF : F.Rounds val) {acc w : F.D} {k : Nat} (hk : k + 1 ≤ 200)
    (hacc : 0 ≤ val acc ∧ val acc ≤ 2 ^ k) (hw : 0 < val w ∧ val w ≤ 2 ^ k) :
    val acc ≤ val (F.add acc w) ∧ val w ≤ val (F.add acc w) ∧ val (F.add acc w) ≤ 2 ^ (k + 1) := by
  have hsum : val acc + val w ≤ 2 ^ (k + 1) := by
    rw [pow_succ]
    linarith [hacc.2, hw.2]
  have hbig : (2 : ℚ) ^ (k + 1) ≤ 2 ^ 200 := pow_le_pow_right₀ (by norm_num) hk
  have habs : |val acc + val w| ≤ 2 ^ 200 := by
    rw [abs_of_nonneg (by linarith [hacc.1, hw.1])]
    exact hsum.trans hbig
  have hround := hF.add acc w habs
  obtain ⟨top, htop⟩ := hF.power (k + 1) hk
  refine ⟨(hround acc).1 (by linarith [hw.1]), (hround w).1 (by linarith [hacc.1]), ?_⟩
  exact htop ▸ (hround top).2 (htop ▸ hsum)

theorem foldl_weight (hF : F.Rounds val) (hweight : Weighted val weight) (nodes : List Node)
    {acc : F.D} {k : Nat} (hk : 20 ≤ k ∧ k + nodes.length ≤ 200)
    (hacc : 0 ≤ val acc ∧ val acc ≤ 2 ^ k) :
    val acc ≤ val (nodes.foldl (fun total node => F.add total (weight node)) acc) ∧
      val (nodes.foldl (fun total node => F.add total (weight node)) acc)
        ≤ 2 ^ (k + nodes.length) := by
  induction nodes generalizing acc k with
  | nil => exact ⟨le_rfl, hacc.2⟩
  | cons node rest ih =>
    rw [List.length_cons] at hk ⊢
    obtain ⟨hpos, hle⟩ := hweight node
    have hpow : (2 : ℚ) ^ 20 ≤ 2 ^ k := pow_le_pow_right₀ (by norm_num) hk.1
    obtain ⟨hmono, hnode, htop⟩ := add_weight hF (by omega) hacc ⟨hpos, hle.trans hpow⟩
    obtain ⟨hlo, hhi⟩ := ih (k := k + 1) (by omega) ⟨hpos.le.trans hnode, htop⟩
    rw [show k + (rest.length + 1) = k + 1 + rest.length by omega]
    exact ⟨hmono.trans hlo, hhi⟩

theorem totalWeight_bounds (hF : F.Rounds val) (hweight : Weighted val weight)
    {nodes : List Node} (hne : nodes ≠ []) (hlen : nodes.length ≤ poolSize) :
    0 < val (totalWeight F weight nodes) ∧ val (totalWeight F weight nodes) ≤ 2 ^ 150 := by
  have hzero : val (F.ofNat 0) = 0 := by simpa using hF.ofNat 0 (by norm_num)
  simp only [poolSize] at hlen
  have hacc : 0 ≤ val (F.ofNat 0) ∧ val (F.ofNat 0) ≤ 2 ^ 20 := by
    rw [hzero]
    exact ⟨le_rfl, by positivity⟩
  cases nodes with
  | nil => exact absurd rfl hne
  | cons node rest =>
    rw [List.length_cons] at hlen
    obtain ⟨-, hnode, htop⟩ := add_weight hF (k := 20) (by omega) hacc (hweight node)
    have hpos := (hweight node).1.trans_le hnode
    obtain ⟨hlo, hhi⟩ := foldl_weight hF hweight rest (k := 21) (by omega) ⟨hpos.le, htop⟩
    refine ⟨hpos.trans_le hlo, hhi.trans ?_⟩
    exact pow_le_pow_right₀ (by norm_num) (by omega)

/-! The uniform value. -/

/-- The 53 bits of the next uniform draw. -/
def uniformBits (rng : UInt64) : Nat := ((splitmix64Next rng).1 >>> 11).toNat

theorem uniformBits_lt (rng : UInt64) : uniformBits rng < 2 ^ 53 := by
  have hlt := (splitmix64Next rng).1.toNat_lt
  unfold uniformBits
  rw [UInt64.toNat_shiftRight, Nat.shiftRight_eq_div_pow]
  simp
  omega

theorem val_rngUniform01 (hF : F.Rounds val) (rng : UInt64) :
    val (rngUniform01 F rng).1 = uniformBits rng / 2 ^ 53 := by
  have hlt : uniformBits rng ≤ 2 ^ 53 := (uniformBits_lt rng).le
  have hbits : val (F.ofNat (uniformBits rng)) = uniformBits rng := hF.ofNat _ hlt
  have hone : val (F.ofNat 1) = 1 := by simpa using hF.ofNat 1 (by norm_num)
  have hscale : val (F.ofNat 9007199254740992) = 2 ^ 53 := by
    rw [hF.ofNat _ (by norm_num)]
    norm_num
  have hunit : val (F.div (F.ofNat 1) (F.ofNat 9007199254740992)) = 1 / 2 ^ 53 := by
    obtain ⟨d, hd⟩ := hF.dyadic 1 53 (by norm_num) (by norm_num)
    have hround := hF.div (F.ofNat 1) (F.ofNat 9007199254740992)
    rw [hone, hscale] at hround
    refine (hround (by norm_num) ?_).exact (d := d) (by simpa using hd)
    rw [abs_of_pos (by positivity)]
    exact (by norm_num : (1 : ℚ) / 2 ^ 53 ≤ 1).trans (one_le_pow₀ (by norm_num))
  obtain ⟨d, hd⟩ := hF.dyadic (uniformBits rng) 53 hlt (by norm_num)
  have hround := hF.mul (F.ofNat (uniformBits rng)) (F.div (F.ofNat 1) (F.ofNat 9007199254740992))
  rw [hbits, hunit, mul_one_div] at hround
  refine (hround ?_).exact hd
  rw [abs_of_nonneg (by positivity), div_le_iff₀ (by positivity)]
  have hcast : (uniformBits rng : ℚ) ≤ 2 ^ 53 := by exact_mod_cast hlt
  have hbig : (1 : ℚ) ≤ 2 ^ 200 := one_le_pow₀ (by norm_num)
  exact hcast.trans (le_mul_of_one_le_left (by positivity) hbig)

theorem val_rngUniform01_bounds (hF : F.Rounds val) (rng : UInt64) :
    0 ≤ val (rngUniform01 F rng).1 ∧ val (rngUniform01 F rng).1 ≤ 1 := by
  have hcast : (uniformBits rng : ℚ) ≤ 2 ^ 53 := by exact_mod_cast (uniformBits_lt rng).le
  rw [val_rngUniform01 hF, div_le_one (by positivity)]
  exact ⟨by positivity, hcast⟩

/-! A draw succeeds. -/

/-- The last cumulative weight is the total. -/
theorem firstReaching_isSome {target : F.D} {nodes : List Node} (hne : nodes ≠ []) {cum : F.D}
    (h : F.le target (nodes.foldl (fun total node => F.add total (weight node)) cum) = true) :
    (firstReaching F weight target cum nodes).isSome := by
  induction nodes generalizing cum with
  | nil => exact absurd rfl hne
  | cons node rest ih =>
    unfold firstReaching
    dsimp only
    split
    · rfl
    · rename_i hbeyond
      rw [List.foldl_cons] at h
      refine ih ?_ h
      rintro rfl
      exact hbeyond h

theorem notExcluded_ne_nil {excl₁ excl₂ : List Node}
    (h : excl₁.length + excl₂.length < poolSize) : notExcluded excl₁ excl₂ ≠ [] := by
  intro hnil
  have hall : (Finset.univ : Finset Node) ⊆ (excl₁ ++ excl₂).toFinset := by
    intro node _
    rw [List.mem_toFinset, List.mem_append]
    by_contra hout
    have hmem := mem_notExcluded.mpr (not_or.mp hout)
    rw [hnil] at hmem
    cases hmem
  have hcard := (Finset.card_le_card hall).trans (List.toFinset_card_le _)
  rw [Finset.card_univ, Fintype.card_fin, List.length_append] at hcard
  omega

theorem weightedDrawExcluding_isSome (hF : F.Rounds val) (hweight : Weighted val weight)
    {excl₁ excl₂ : List Node} (h : excl₁.length + excl₂.length < poolSize) (rng : UInt64) :
    (weightedDrawExcluding F weight rng excl₁ excl₂).isSome := by
  have hne := notExcluded_ne_nil h
  have hlen : (notExcluded excl₁ excl₂).length ≤ poolSize :=
    (List.length_filter_le _ _).trans (List.length_finRange).le
  obtain ⟨hpos, htop⟩ := totalWeight_bounds hF hweight hne hlen
  have hzero : val (F.ofNat 0) = 0 := by simpa using hF.ofNat 0 (by norm_num)
  obtain ⟨hlo, hhi⟩ := val_rngUniform01_bounds hF rng
  have hprod : val (rngUniform01 F rng).1 * val (totalWeight F weight (notExcluded excl₁ excl₂))
      ≤ val (totalWeight F weight (notExcluded excl₁ excl₂)) := mul_le_of_le_one_left hpos.le hhi
  have habs : |val (rngUniform01 F rng).1 * val (totalWeight F weight (notExcluded excl₁ excl₂))|
      ≤ 2 ^ 200 := by
    rw [abs_of_nonneg (mul_nonneg hlo hpos.le)]
    exact (hprod.trans htop).trans (pow_le_pow_right₀ (by norm_num) (by norm_num))
  have htarget := (hF.mul _ _ habs _).2 hprod
  have hreach : (firstReaching F weight
      (F.mul (rngUniform01 F rng).1 (totalWeight F weight (notExcluded excl₁ excl₂))) (F.ofNat 0)
      (notExcluded excl₁ excl₂)).isSome := firstReaching_isSome hne ((hF.le _ _).mpr htarget)
  obtain ⟨node, hnode⟩ := Option.isSome_iff_exists.mp hreach
  unfold weightedDrawExcluding
  dsimp only
  rw [if_neg fun hle => absurd ((hF.le _ _).mp hle) (by rw [hzero]; exact not_le.mpr hpos)]
  unfold drawAttempts
  dsimp only
  rw [hnode]
  rfl

/-! A pick. -/

/-- The draw lies in the lower half of the `i`-th of `n` equal parts. -/
def PicksAt (bits n i : Nat) : Prop := i * 2 ^ 53 ≤ bits * n ∧ 2 * (bits * n) ≤ (2 * i + 1) * 2 ^ 53

instance (bits n i : Nat) : Decidable (PicksAt bits n i) := inferInstanceAs (Decidable (_ ∧ _))

theorem pickEntry_of_picksAt (hF : F.Rounds val) {guards : GuardSet} {rng : UInt64} {i : Nat}
    (hi : i < guards.1.length) (h : PicksAt (uniformBits rng) guards.1.length i) :
    pickEntry F guards rng = (some guards.1[i], (splitmix64Next rng).2) := by
  have hsize : guards.1.length ≤ 3 := guards.2
  have hcount : val (F.ofNat guards.1.length) = guards.1.length := hF.ofNat _ (by omega)
  have hexact : val (rngUniform01 F rng).1 * val (F.ofNat guards.1.length)
      = uniformBits rng * guards.1.length / 2 ^ 53 := by
    rw [val_rngUniform01 hF, hcount, div_mul_eq_mul_div]
  have hlo : (i : ℚ) ≤ uniformBits rng * guards.1.length / 2 ^ 53 := by
    rw [le_div_iff₀ (by positivity)]
    exact_mod_cast h.1
  have hhi : (uniformBits rng * guards.1.length : ℚ) / 2 ^ 53 ≤ (2 * i + 1 : Nat) / 2 ^ 1 := by
    rw [div_le_div_iff₀ (by positivity) (by positivity)]
    have := h.2
    exact_mod_cast (by omega : uniformBits rng * guards.1.length * 2 ^ 1 ≤ (2 * i + 1) * 2 ^ 53)
  have hsmall : ((2 * i + 1 : Nat) : ℚ) / 2 ^ 1 ≤ 4 := by
    rw [div_le_iff₀ (by positivity)]
    exact_mod_cast (by omega : 2 * i + 1 ≤ 4 * 2 ^ 1)
  have hround := hF.mul (rngUniform01 F rng).1 (F.ofNat guards.1.length)
  rw [hexact] at hround
  have habs : |(uniformBits rng * guards.1.length : ℚ) / 2 ^ 53| ≤ 2 ^ 200 := by
    rw [abs_of_nonneg (by positivity)]
    refine (hhi.trans hsmall).trans ?_
    exact (by norm_num : (4 : ℚ) ≤ 2 ^ 2).trans (pow_le_pow_right₀ (by norm_num) (by norm_num))
  obtain ⟨bot, hbot⟩ := hF.dyadic i 0 (by omega) (by norm_num)
  obtain ⟨top, htop⟩ := hF.dyadic (2 * i + 1) 1 (by omega) (by norm_num)
  rw [pow_zero, div_one] at hbot
  have hge := (hround habs bot).1 (hbot ▸ hlo)
  have hle := (hround habs top).2 (htop ▸ hhi)
  rw [hbot] at hge
  rw [htop] at hle
  have hidx : F.trunc (F.mul (rngUniform01 F rng).1 (F.ofNat guards.1.length)) = i := by
    have hnonneg : (0 : ℚ) ≤ i := by positivity
    rw [hF.trunc _ (hnonneg.trans hge) ((hle.trans hsmall).trans_lt (by norm_num)),
      Nat.floor_eq_iff (hnonneg.trans hge)]
    refine ⟨hge, hle.trans_lt ?_⟩
    rw [div_lt_iff₀ (by positivity)]
    exact_mod_cast (by omega : 2 * i + 1 < (i + 1) * 2 ^ 1)
  unfold pickEntry
  dsimp only
  rw [hidx, if_neg (by omega), List.getElem?_eq_getElem hi]
  rfl

/-- A state whose next two draws lie where asked for. -/
theorem exists_picksAt : ∀ n ≤ guardSetSize, ∀ i < n, ∀ n' ≤ guardSetSize, ∀ i' < n',
    ∃ rng, PicksAt (uniformBits rng) n i ∧ PicksAt (uniformBits (splitmix64Next rng).2) n' i' := by
  -- below one sixth, between a third and a half, between two thirds and three quarters
  let part : Nat → Nat → Nat := fun n i => if i = 0 then 0 else if n = 3 ∧ i = 1 then 1 else 2
  let states : List UInt64 := [100, 49, 3, 7, 58, 174, 19, 6, 29]
  have hstates : ∀ n ≤ guardSetSize, ∀ i < n, ∀ n' ≤ guardSetSize, ∀ i' < n',
      PicksAt (uniformBits (states.getD (3 * part n i + part n' i') 0)) n i ∧
        PicksAt (uniformBits (splitmix64Next (states.getD (3 * part n i + part n' i') 0)).2)
          n' i' := by
    decide +kernel
  exact fun n hn i hi n' hn' i' hi' => ⟨_, hstates n hn i hi n' hn' i' hi'⟩

/-- Every pair of guards is picked from some state, and the session path is then built. -/
theorem exists_buildSessionPath (hF : F.Rounds val) (hweight : Weighted val weight)
    {guardA guardB : GuardSet} {a b : Node} (ha : a ∈ guardA.1) (hb : b ∈ guardB.1) :
    ∃ rng sp rng', buildSessionPath F weight guardA guardB rng = some (sp, rng') ∧
      sp.entryA = a ∧ sp.entryB = b := by
  obtain ⟨i, hi, rfl⟩ := List.getElem_of_mem ha
  obtain ⟨j, hj, rfl⟩ := List.getElem_of_mem hb
  obtain ⟨rng, hpickA, hpickB⟩ := exists_picksAt _ guardA.2 i hi _ guardB.2 j hj
  have hA := pickEntry_of_picksAt hF hi hpickA
  have hB := pickEntry_of_picksAt hF hj hpickB
  have hdraw : ∀ (used : List Node) (rng : UInt64), used.length < poolSize →
      ∃ node rng', weightedDrawExcluding F weight rng used [] = some (node, rng') := by
    intro used rng hlen
    have hroom : used.length + ([] : List Node).length < poolSize := hlen
    have hdrawn := weightedDrawExcluding_isSome hF hweight hroom rng
    obtain ⟨⟨node, rng'⟩, h⟩ := Option.isSome_iff_exists.mp hdrawn
    exact ⟨node, rng', h⟩
  obtain ⟨midA, rng₁, hmidA⟩ := hdraw [guardA.1[i], guardB.1[j]]
    (splitmix64Next (splitmix64Next rng).2).2 (by simp [poolSize])
  obtain ⟨lastA, rng₂, hlastA⟩ := hdraw ([guardA.1[i], guardB.1[j]] ++ [midA]) rng₁
    (by simp [poolSize])
  obtain ⟨midB, rng₃, hmidB⟩ := hdraw ([guardA.1[i], guardB.1[j]] ++ [midA] ++ [lastA]) rng₂
    (by simp [poolSize])
  obtain ⟨lastB, rng₄, hlastB⟩ :=
    hdraw ([guardA.1[i], guardB.1[j]] ++ [midA] ++ [lastA] ++ [midB]) rng₃ (by simp [poolSize])
  refine ⟨rng, ⟨guardA.1[i], midA, lastA, guardB.1[j], midB, lastB⟩, rng₄, ?_, rfl, rfl⟩
  unfold buildSessionPath
  rw [hA]
  dsimp only
  rw [hB]
  simp only [Option.bind_some, hmidA, hlastA, hmidB, hlastB]

end
end AnonSecNet.NodePool
