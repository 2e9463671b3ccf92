import AnonSecNet.Evaluation.Sprt
import Mathlib.Algebra.Order.Field.Rat
import Mathlib.Data.List.Sort
import Mathlib.Order.Bounds.Basic

/-! The step-up correction of `asn_sda_multicandidate.py`. A candidate is its index in the list of
p-values, as in the source. -/
namespace AnonSecNet.Evaluation

/-- `sorted(enumerate(pvalues), key=lambda x: x[1])`, with the pairs the other way round. -/
def indexed (pvalues : List ℚ) : List (ℚ × Nat) :=
  pvalues.zipIdx.insertionSort fun a b => a.1 ≤ b.1

/-- The last rank that meets its line; the loop goes on after one that does not. -/
def cutoffRank (m : Nat) (q : ℚ) (ordered : List (ℚ × Nat)) : Nat :=
  (ordered.zipIdx 1).foldl
    (fun cutoff x => if x.1.1 ≤ (x.2 : ℚ) / (m : ℚ) * q then x.2 else cutoff) 0

def benjaminiHochberg (pvalues : List ℚ) (q : ℚ) : Finset Nat :=
  let ordered := indexed pvalues
  let cutoff := cutoffRank pvalues.length q ordered
  if cutoff = 0 then ∅ else ((ordered.take cutoff).map Prod.snd).toFinset

/-- The p-values `simulate_bh` makes of the decisions and the final ratios; `exp` is that of the
math module. -/
def proxyPvalues (exp : ℚ → ℚ) (runs : List (SprtDecision × Nat × ℚ)) : List ℚ :=
  runs.map fun r => if r.1 = .h1 then min 1 (exp (-r.2.2)) else 1

/-- The candidates are tested one after the other, on draws from one generator. -/
def candidateRuns (A Bb llrM llrNm tpr fpr : ℚ) (maxRounds : Nat) :
    List SprtDecision → Stream' ℚ → List (SprtDecision × Nat × ℚ)
  | [], _ => []
  | trueHypothesis :: rest, rng =>
    let (result, rng) := runOneSprt A Bb llrM llrNm tpr fpr trueHypothesis rng maxRounds
    result :: candidateRuns A Bb llrM llrNm tpr fpr maxRounds rest rng

/-- One trial of `simulate_bh`, the true pair first: the runs and what is flagged. -/
def bhTrial (log exp : ℚ → ℚ) (tpr fpr alpha beta : ℚ) (K maxRounds : Nat) (rng : Stream' ℚ) :
    List (SprtDecision × Nat × ℚ) × Finset Nat :=
  let (A, Bb) := waldBoundaries log alpha beta
  let (llrM, llrNm) := perRoundLlrTerms log tpr fpr
  let runs := candidateRuns A Bb llrM llrNm tpr fpr maxRounds
    (.h1 :: List.replicate (K - 1) .h0) rng
  (runs, benjaminiHochberg (proxyPvalues exp runs) alpha)

/-- A set whose members are significant at the level its own size pays for. -/
def SelfConsistent (pvalues : List ℚ) (q : ℚ) (flagged : Finset Nat) : Prop :=
  ∀ i ∈ flagged, ∃ p, pvalues[i]? = some p ∧ p ≤ (flagged.card : ℚ) / (pvalues.length : ℚ) * q

variable {pvalues : List ℚ} {q : ℚ}

theorem indexed_perm (pvalues : List ℚ) : (indexed pvalues).Perm pvalues.zipIdx :=
  List.perm_insertionSort _ _

theorem indexed_length (pvalues : List ℚ) : (indexed pvalues).length = pvalues.length := by
  rw [(indexed_perm pvalues).length_eq, List.length_zipIdx]

theorem indexed_sorted (pvalues : List ℚ) : (indexed pvalues).Pairwise fun a b => a.1 ≤ b.1 := by
  have htotal : Std.Total fun a b : ℚ × Nat => a.1 ≤ b.1 := ⟨fun a b => le_total a.1 b.1⟩
  have htrans : IsTrans (ℚ × Nat) fun a b => a.1 ≤ b.1 := ⟨fun _ _ _ => le_trans⟩
  exact List.pairwise_insertionSort _ _

theorem indexed_nodup (pvalues : List ℚ) : ((indexed pvalues).map Prod.snd).Nodup := by
  rw [((indexed_perm pvalues).map Prod.snd).nodup_iff, List.zipIdx_map_snd]
  exact List.nodup_range'

theorem mem_indexed {p : ℚ} {i : Nat} : (p, i) ∈ indexed pvalues ↔ pvalues[i]? = some p := by
  rw [(indexed_perm pvalues).mem_iff, List.mk_mem_zipIdx_iff_getElem?]

/-- Induction on the list from its end: the last element decides, or the rest does. -/
theorem cutoffRank_spec (m : Nat) (q : ℚ) (ordered : List (ℚ × Nat)) :
    let k := cutoffRank m q ordered
    k ≤ ordered.length ∧
      (∀ j x, ordered[j]? = some x → x.1 ≤ ((j + 1 : Nat) : ℚ) / (m : ℚ) * q → j < k) ∧
      (k ≠ 0 → ∃ x, ordered[k - 1]? = some x ∧ x.1 ≤ (k : ℚ) / (m : ℚ) * q) := by
  induction ordered using List.reverseRecOn with
  | nil => simp [cutoffRank]
  | append_singleton xs y ih =>
    obtain ⟨hle, hlast, hmet⟩ := ih
    have hstep : cutoffRank m q (xs ++ [y]) =
        if y.1 ≤ ((xs.length + 1 : Nat) : ℚ) / (m : ℚ) * q then xs.length + 1
        else cutoffRank m q xs := by
      unfold cutoffRank
      rw [List.zipIdx_append, List.foldl_append, List.zipIdx_singleton, List.foldl_cons,
        List.foldl_nil, Nat.add_comm 1]
    dsimp only
    rw [hstep]
    split
    · rename_i hy
      refine ⟨by simp, ?_, fun _ => ⟨y, by simp, hy⟩⟩
      intro j x hx _
      have hj := (List.getElem?_eq_some_iff.mp hx).1
      rwa [List.length_append, List.length_singleton] at hj
    · rename_i hy
      refine ⟨by rw [List.length_append]; omega, ?_, ?_⟩
      · intro j x hx hsat
        by_cases hj : j < xs.length
        · exact hlast j x (by rwa [List.getElem?_append_left hj] at hx) hsat
        · have hjlt := (List.getElem?_eq_some_iff.mp hx).1
          rw [List.length_append, List.length_singleton] at hjlt
          have hjeq : j = xs.length := by omega
          subst hjeq
          have hxy : y = x := by simpa using hx
          exact absurd (hxy ▸ hsat) hy
      · intro hk
        obtain ⟨x, hx, hsat⟩ := hmet hk
        exact ⟨x, by rw [List.getElem?_append_left (by omega)]; exact hx, hsat⟩

/-- The test for an empty set changes nothing. -/
theorem benjaminiHochberg_eq (pvalues : List ℚ) (q : ℚ) :
    benjaminiHochberg pvalues q =
      (((indexed pvalues).take
        (cutoffRank pvalues.length q (indexed pvalues))).map Prod.snd).toFinset := by
  unfold benjaminiHochberg
  dsimp only
  split
  · rename_i hzero
    rw [hzero]
    rfl
  · rfl

theorem take_card {k : Nat} (hk : k ≤ pvalues.length) :
    (((indexed pvalues).take k).map Prod.snd).toFinset.card = k := by
  have hnodup : (((indexed pvalues).take k).map Prod.snd).Nodup :=
    (indexed_nodup pvalues).sublist ((List.take_sublist k _).map Prod.snd)
  rw [List.toFinset_card_of_nodup hnodup, List.length_map, List.length_take, indexed_length]
  exact min_eq_left hk

theorem cutoffRank_le (pvalues : List ℚ) (q : ℚ) :
    cutoffRank pvalues.length q (indexed pvalues) ≤ pvalues.length := by
  have hle := (cutoffRank_spec pvalues.length q (indexed pvalues)).1
  rwa [indexed_length] at hle

theorem benjaminiHochberg_card (pvalues : List ℚ) (q : ℚ) :
    (benjaminiHochberg pvalues q).card = cutoffRank pvalues.length q (indexed pvalues) := by
  rw [benjaminiHochberg_eq, take_card (cutoffRank_le pvalues q)]

/-- A flagged candidate stands before the last rank, whose p-value meets its line. -/
theorem benjaminiHochberg_selfConsistent (pvalues : List ℚ) (q : ℚ) :
    SelfConsistent pvalues q (benjaminiHochberg pvalues q) := by
  intro i hi
  have hcard := benjaminiHochberg_card pvalues q
  rw [benjaminiHochberg_eq, List.mem_toFinset] at hi
  obtain ⟨x, hx, rfl⟩ := List.mem_map.mp hi
  obtain ⟨j, hj⟩ := List.mem_iff_getElem?.mp hx
  have hjk : j < cutoffRank pvalues.length q (indexed pvalues) := by
    have hlt := (List.getElem?_eq_some_iff.mp hj).1
    rw [List.length_take] at hlt
    exact lt_of_lt_of_le hlt (min_le_left _ _)
  rw [List.getElem?_take_of_lt hjk] at hj
  obtain ⟨y, hy, hmet⟩ :=
    (cutoffRank_spec pvalues.length q (indexed pvalues)).2.2 (Nat.ne_zero_of_lt hjk)
  have hxy : x.1 ≤ y.1 := by
    obtain ⟨hjlt, hjx⟩ := List.getElem?_eq_some_iff.mp hj
    obtain ⟨hklt, hky⟩ := List.getElem?_eq_some_iff.mp hy
    cases Nat.lt_or_eq_of_le (Nat.le_sub_one_of_lt hjk) with
    | inl hlt =>
      rw [← hjx, ← hky]
      exact List.pairwise_iff_getElem.mp (indexed_sorted pvalues) j _ hjlt hklt hlt
    | inr heq =>
      subst heq
      exact le_of_eq (congrArg Prod.fst (hjx.symm.trans hky))
  refine ⟨x.1, mem_indexed.mp (List.mem_of_getElem? hj), ?_⟩
  rw [hcard]
  exact hxy.trans hmet

/-- In a self-consistent set the member that stands last has at least as many before it as the
set has members, so its rank meets its own line. -/
theorem SelfConsistent.subset (hq : 0 ≤ q) {flagged : Finset Nat}
    (h : SelfConsistent pvalues q flagged) : flagged ⊆ benjaminiHochberg pvalues q := by
  have hplace : ∀ i ∈ flagged, ∃ (j : Nat) (p : ℚ), (indexed pvalues)[j]? = some (p, i) ∧
      p ≤ (flagged.card : ℚ) / (pvalues.length : ℚ) * q := by
    intro i hi
    obtain ⟨p, hp, hle⟩ := h i hi
    obtain ⟨j, hj⟩ := List.mem_iff_getElem?.mp (mem_indexed.mpr hp)
    exact ⟨j, p, hj, hle⟩
  set k := cutoffRank pvalues.length q (indexed pvalues) with hk
  have hprefix : ∀ n, flagged ⊆ (((indexed pvalues).take (k + n)).map Prod.snd).toFinset →
      flagged ⊆ (((indexed pvalues).take k).map Prod.snd).toFinset := by
    intro n
    induction n with
    | zero => exact id
    | succ n ih =>
      intro hsub
      apply ih
      intro i hi
      -- the last place `k + n` of the prefix is not taken: its line would be met
      obtain ⟨j, p, hj, hle⟩ := hplace i hi
      have hjlt : j < k + n := by
        by_contra hge
        have hcard : flagged.card ≤ j + 1 := by
          calc
            flagged.card ≤ _ := Finset.card_le_card hsub
            _ ≤ (((indexed pvalues).take (k + (n + 1))).map Prod.snd).length :=
              List.toFinset_card_le _
            _ ≤ k + (n + 1) := by rw [List.length_map]; exact List.length_take_le _ _
            _ ≤ j + 1 := by omega
        have hline : p ≤ ((j + 1 : Nat) : ℚ) / (pvalues.length : ℚ) * q :=
          hle.trans (by gcongr)
        have := (cutoffRank_spec pvalues.length q (indexed pvalues)).2.1 j _ hj hline
        omega
      rw [List.mem_toFinset]
      refine List.mem_map.mpr ⟨(p, i), ?_, rfl⟩
      exact List.mem_of_getElem? (by rw [List.getElem?_take_of_lt hjlt]; exact hj)
  rw [benjaminiHochberg_eq, ← hk]
  apply hprefix pvalues.length
  intro i hi
  obtain ⟨j, p, hj, -⟩ := hplace i hi
  have hall : (indexed pvalues).take (k + pvalues.length) = indexed pvalues := by
    apply List.take_of_length_le
    rw [indexed_length]
    omega
  rw [hall, List.mem_toFinset]
  exact List.mem_map.mpr ⟨(p, i), List.mem_of_getElem? hj, rfl⟩

/-- Every flagged candidate is significant at the level `q` itself. -/
theorem flagged_le (hq : 0 ≤ q) {i : Nat} (hi : i ∈ benjaminiHochberg pvalues q) :
    ∃ p, pvalues[i]? = some p ∧ p ≤ q := by
  obtain ⟨p, hp, hle⟩ := benjaminiHochberg_selfConsistent pvalues q i hi
  refine ⟨p, hp, hle.trans ?_⟩
  rw [benjaminiHochberg_card]
  apply mul_le_of_le_one_left hq
  apply div_le_one_of_le₀ _ (Nat.cast_nonneg _)
  exact_mod_cast cutoffRank_le pvalues q

/-- A candidate that accepted `H0` has the p-value 1. -/
theorem flagged_accepted {exp : ℚ → ℚ} {runs : List (SprtDecision × Nat × ℚ)} (hq : 0 ≤ q)
    (hq1 : q < 1) {i : Nat} (hi : i ∈ benjaminiHochberg (proxyPvalues exp runs) q) :
    ∃ r, runs[i]? = some r ∧ r.1 = .h1 ∧ exp (-r.2.2) ≤ q := by
  obtain ⟨p, hp, hle⟩ := flagged_le hq hi
  unfold proxyPvalues at hp
  rw [List.getElem?_map, Option.map_eq_some_iff] at hp
  obtain ⟨r, hr, rfl⟩ := hp
  refine ⟨r, hr, ?_⟩
  split at hle
  · rename_i hdecision
    exact ⟨hdecision, (min_le_iff.mp hle).resolve_left (not_le.mpr hq1)⟩
  · exact absurd hle (not_le.mpr hq1)

end AnonSecNet.Evaluation
