import AnonSecNet.Foundation.Corners
import Mathlib.Data.List.GetD
import Mathlib.Data.List.Sort
import Mathlib.Data.Rat.Floor
import Mathlib.Order.Bounds.Basic

/-! `roc_tpr_at_fpr` of `flowcorr_run.py`, over the rationals. -/
namespace AnonSecNet.Evaluation
open AnonSecNet.Corners

/-- `np.argsort`: the places of a list in some order that sorts it. -/
structure Argsort where
  order : List ℚ → List Nat
  perm : ∀ xs, (order xs).Perm (List.range xs.length)
  sorts : ∀ xs, ((order xs).map (xs.getD · 0)).Pairwise (· ≤ ·)

/-- `np.trapezoid`. -/
def trapezoid (y x : List ℚ) : ℚ := area (x.getD · 0) (y.getD · 0) (x.length - 1)

/-- `np.searchsorted` with `side="right"`. -/
def searchsortedRight (xs : List ℚ) (v : ℚ) : Nat := (xs.takeWhile (· ≤ v)).length

/-- `round`, to the even neighbour when both are as near. -/
def pyRound (q : ℚ) : ℤ :=
  if q - ⌊q⌋ < 1 / 2 then ⌊q⌋
  else if 1 / 2 < q - ⌊q⌋ then ⌊q⌋ + 1
  else if ⌊q⌋ % 2 = 0 then ⌊q⌋
  else ⌊q⌋ + 1

/-- `np.mean(scores >= thr)`. -/
def rate (scores : List ℚ) (thr : ℚ) : ℚ :=
  (scores.filter (thr ≤ ·)).length / scores.length

/-- The scores without repetitions, from the highest. -/
def thresholds (trueScores impostorScores : List ℚ) : List ℚ :=
  ((trueScores ++ impostorScores).dedup.insertionSort (· ≤ ·)).reverse

/-- The rates at the thresholds, between 0 and 1. -/
def curve (thresholds scores : List ℚ) : List ℚ := [0] ++ thresholds.map (rate scores) ++ [1]

structure RocResult (γ : Type*) where
  results : List (ℚ × ℚ × γ)
  auc : ℚ
  nTrue : Nat
  nImp : Nat
  fprsSorted : List ℚ
  tprsSorted : List ℚ

def tprAt (fprsSorted tprsSorted : List ℚ) (target : ℚ) : ℚ :=
  let idx : ℤ := searchsortedRight fprsSorted target - 1
  let idx := max 0 (min idx (tprsSorted.length - 1))
  tprsSorted.getD idx.toNat 0

variable {γ : Type*} (argsort : Argsort) (ci95Proportion : ℤ → Nat → γ)
variable (trueScores impostorScores : List ℚ)

def rocTprAtFpr (fprTargets : List ℚ) : RocResult γ :=
  let thresholds := thresholds trueScores impostorScores
  let tprs := curve thresholds trueScores
  let fprs := curve thresholds impostorScores
  let order := argsort.order fprs
  let fprsSorted := order.map (fprs.getD · 0)
  let tprsSorted := order.map (tprs.getD · 0)
  { results := fprTargets.map fun target =>
      let tpr := tprAt fprsSorted tprsSorted target
      let hits := pyRound (tpr * trueScores.length)
      (target, tpr, ci95Proportion hits trueScores.length)
    auc := trapezoid tprsSorted fprsSorted
    nTrue := trueScores.length
    nImp := impostorScores.length
    fprsSorted
    tprsSorted }

/-- How a true score compares with an impostor score. -/
def outcome (impostor true : ℚ) : ℚ :=
  if impostor < true then 1 else if impostor = true then 1 / 2 else 0

/-- The probability that a true score exceeds an impostor score, ties counted one half. -/
def mannWhitney : ℚ :=
  (impostorScores.map fun i => (trueScores.map (outcome i)).sum).sum
    / (impostorScores.length * trueScores.length)

/-- 0 and the rates of the thresholds whose FPR does not exceed the target. -/
def tprsWithin (target : ℚ) : Set ℚ :=
  {tpr | tpr = 0 ∨ ∃ thr ∈ thresholds trueScores impostorScores,
    rate impostorScores thr ≤ target ∧ rate trueScores thr = tpr}

/-- On both sides of each rise of the FPR, and at the end, the order puts a point with the TPR of
the point of that place. -/
def KeepsCorners : Prop :=
  let thresholds := thresholds trueScores impostorScores
  let tprs := curve thresholds trueScores
  let fprs := curve thresholds impostorScores
  let order := argsort.order fprs
  (∀ i, i + 1 < fprs.length → fprs.getD i 0 < fprs.getD (i + 1) 0 →
      tprs.getD (order.getD i 0) 0 = tprs.getD i 0 ∧
        tprs.getD (order.getD (i + 1) 0) 0 = tprs.getD (i + 1) 0) ∧
    tprs.getD (order.getD (fprs.length - 1) 0) 0 = tprs.getD (fprs.length - 1) 0

/-! The curve in the order of the thresholds. -/

section
omit trueScores impostorScores

theorem rate_bounds (scores : List ℚ) (thr : ℚ) : 0 ≤ rate scores thr ∧ rate scores thr ≤ 1 := by
  unfold rate
  have hle : ((scores.filter (thr ≤ ·)).length : ℚ) ≤ scores.length := by
    exact_mod_cast List.length_filter_le _ _
  exact ⟨by positivity, div_le_one_of_le₀ hle (by positivity)⟩

theorem rate_antitone (scores : List ℚ) : Antitone (rate scores) := by
  intro thr thr' hle
  unfold rate
  have hsub : (scores.filter (thr' ≤ ·)).Sublist (scores.filter (thr ≤ ·)) :=
    List.monotone_filter_right scores fun s hs => by
      simp only [decide_eq_true_eq] at hs ⊢
      exact hle.trans hs
  gcongr
  exact_mod_cast hsub.length_le

theorem length_curve (thresholds scores : List ℚ) :
    (curve thresholds scores).length = thresholds.length + 2 := by
  simp [curve]

theorem curve_sorted {thresholds : List ℚ} (h : thresholds.Pairwise (· > ·)) (scores : List ℚ) :
    (curve thresholds scores).Pairwise (· ≤ ·) := by
  unfold curve
  rw [List.append_assoc, List.singleton_append, List.pairwise_cons]
  have hrates : ∀ r ∈ thresholds.map (rate scores), 0 ≤ r ∧ r ≤ 1 := by
    intro r hr
    obtain ⟨thr, -, rfl⟩ := List.mem_map.mp hr
    exact rate_bounds scores thr
  refine ⟨fun r hr => ?_, List.pairwise_append.mpr ⟨?_, List.pairwise_singleton _ _, ?_⟩⟩
  · obtain hr | hr := List.mem_append.mp hr
    · exact (hrates r hr).1
    · rw [List.mem_singleton.mp hr]
      exact zero_le_one
  · rw [List.pairwise_map]
    exact h.imp fun hgt => rate_antitone scores hgt.le
  · intro r hr r' hr'
    rw [List.mem_singleton.mp hr']
    exact (hrates r hr).2

end

theorem thresholds_sorted : (thresholds trueScores impostorScores).Pairwise (· > ·) := by
  unfold thresholds
  rw [List.pairwise_reverse]
  have hnodup : ((trueScores ++ impostorScores).dedup.insertionSort (· ≤ ·)).Nodup :=
    (List.perm_insertionSort _ _).nodup_iff.mpr (List.nodup_dedup _)
  exact (List.pairwise_insertionSort (· ≤ ·) _).imp₂ (fun _ _ hle hne => lt_of_le_of_ne hle hne)
    hnodup

theorem mem_thresholds {s : ℚ} :
    s ∈ thresholds trueScores impostorScores ↔ s ∈ trueScores ∨ s ∈ impostorScores := by
  unfold thresholds
  rw [List.mem_reverse, List.mem_insertionSort, List.mem_dedup, List.mem_append]

/-! The area under it. -/

section
omit trueScores impostorScores

theorem trapezoid_cons (y y' x x' : ℚ) (ys xs : List ℚ) :
    trapezoid (y :: y' :: ys) (x :: x' :: xs)
      = (x' - x) * (y' + y) / 2 + trapezoid (y' :: ys) (x' :: xs) :=
  area_succ _ _ xs.length

/-- The share of the scores that have been passed. -/
def share (scores : List ℚ) (seen : ℚ → Bool) : ℚ :=
  (scores.filter seen).length / scores.length

variable {seen : ℚ → Bool} {thr : ℚ} {scores : List ℚ}

/-! When the scores above `thr` have been passed, and `thr` is next. -/

theorem length_filter_next (h : ∀ s ∈ scores, seen s = true ↔ thr < s) :
    (scores.filter (thr ≤ ·)).length = (scores.filter seen).length + scores.count thr := by
  induction scores with
  | nil => rfl
  | cons s scores ih =>
    obtain ⟨hs, hrest⟩ := List.forall_mem_cons.mp h
    have hrest := ih hrest
    obtain hlt | heq | hgt := lt_trichotomy thr s
    · rw [List.filter_cons_of_pos (by simpa using hlt.le), List.filter_cons_of_pos (hs.mpr hlt),
        List.count_cons_of_ne hlt.ne', List.length_cons, List.length_cons, hrest]
      omega
    · subst heq
      have hseen : ¬ seen thr = true := fun hseen => lt_irrefl _ (hs.mp hseen)
      rw [List.filter_cons_of_pos (by simp), List.filter_cons_of_neg hseen,
        List.count_cons_self, List.length_cons, hrest]
      omega
    · have hseen : ¬ seen s = true := fun hseen => lt_asymm hgt (hs.mp hseen)
      rw [List.filter_cons_of_neg (by simpa using hgt), List.filter_cons_of_neg hseen,
        List.count_cons_of_ne hgt.ne, hrest]

theorem outcome_sum (h : ∀ s ∈ scores, seen s = true ↔ thr < s) :
    (scores.map (outcome thr)).sum = (scores.filter seen).length + scores.count thr / 2 := by
  induction scores with
  | nil => simp
  | cons s scores ih =>
    obtain ⟨hs, hrest⟩ := List.forall_mem_cons.mp h
    have hrest := ih hrest
    rw [List.map_cons, List.sum_cons, hrest]
    obtain hlt | heq | hgt := lt_trichotomy thr s
    · rw [List.filter_cons_of_pos (hs.mpr hlt), List.count_cons_of_ne hlt.ne', List.length_cons,
        outcome, if_pos hlt]
      push_cast
      ring
    · subst heq
      have hseen : ¬ seen thr = true := fun hseen => lt_irrefl _ (hs.mp hseen)
      rw [List.filter_cons_of_neg hseen, List.count_cons_self, outcome, if_neg (lt_irrefl _),
        if_pos rfl]
      push_cast
      ring
    · have hseen : ¬ seen s = true := fun hseen => lt_asymm hgt (hs.mp hseen)
      rw [List.filter_cons_of_neg hseen, List.count_cons_of_ne hgt.ne, outcome,
        if_neg hgt.asymm, if_neg hgt.ne']
      ring

/-- A sum over the scores that have not been passed. -/
theorem sum_next (w : ℚ → ℚ) (h : ∀ s ∈ scores, seen s = true ↔ thr < s) :
    ((scores.filter (!seen ·)).map w).sum
      = scores.count thr * w thr + ((scores.filter fun s => !decide (thr ≤ s)).map w).sum := by
  induction scores with
  | nil => simp
  | cons s scores ih =>
    obtain ⟨hs, hrest⟩ := List.forall_mem_cons.mp h
    have hrest := ih hrest
    obtain hlt | heq | hgt := lt_trichotomy thr s
    · rw [List.filter_cons_of_neg (by simp [hs.mpr hlt]), List.count_cons_of_ne hlt.ne',
        List.filter_cons_of_neg (by simpa using hlt.le), hrest]
    · subst heq
      have hseen : seen thr = false :=
        Bool.eq_false_iff.mpr fun hseen => lt_irrefl _ (hs.mp hseen)
      rw [List.filter_cons_of_pos (by simp [hseen]), List.count_cons_self,
        List.filter_cons_of_neg (by simp), List.map_cons, List.sum_cons, hrest]
      push_cast
      ring
    · have hseen : seen s = false :=
        Bool.eq_false_iff.mpr fun hseen => lt_asymm hgt (hs.mp hseen)
      rw [List.filter_cons_of_pos (by simp [hseen]), List.count_cons_of_ne hgt.ne,
        List.filter_cons_of_pos (by simpa using hgt), List.map_cons, List.map_cons,
        List.sum_cons, List.sum_cons, hrest]
      ring

theorem share_all (hscores : scores ≠ []) (h : ∀ s ∈ scores, seen s = true) :
    share scores seen = 1 := by
  unfold share
  rw [List.filter_eq_self.mpr h]
  exact div_self (by exact_mod_cast (List.length_pos_iff.mpr hscores).ne')

end

/-- From a point of the curve on: the scores passed so far lie above the thresholds to come. -/
theorem area_from (hT : trueScores ≠ []) (hI : impostorScores ≠ []) {ths : List ℚ}
    (hths : ths.Pairwise (· > ·)) (seen : ℚ → Bool)
    (hcover : ∀ s, s ∈ trueScores ∨ s ∈ impostorScores → seen s = true ∨ s ∈ ths)
    (habove : ∀ s, s ∈ trueScores ∨ s ∈ impostorScores → seen s = true → ∀ thr ∈ ths, thr < s) :
    trapezoid (share trueScores seen :: (ths.map (rate trueScores) ++ [1]))
        (share impostorScores seen :: (ths.map (rate impostorScores) ++ [1]))
      = ((impostorScores.filter (!seen ·)).map fun i => (trueScores.map (outcome i)).sum).sum
        / (impostorScores.length * trueScores.length) := by
  have hn : (trueScores.length : ℚ) ≠ 0 := by
    exact_mod_cast (List.length_pos_iff.mpr hT).ne'
  have hm : (impostorScores.length : ℚ) ≠ 0 := by
    exact_mod_cast (List.length_pos_iff.mpr hI).ne'
  induction ths generalizing seen with
  | nil =>
    have hall : ∀ s ∈ impostorScores, seen s = true := fun s hs =>
      (hcover s (.inr hs)).resolve_right List.not_mem_nil
    have hnone : impostorScores.filter (!seen ·) = [] :=
      List.filter_eq_nil_iff.mpr fun s hs => by simp [hall s hs]
    rw [hnone, share_all hI hall]
    simp [trapezoid, area]
  | cons thr ths ih =>
    obtain ⟨hbelow, hrest⟩ := List.pairwise_cons.mp hths
    have hnext : ∀ s, s ∈ trueScores ∨ s ∈ impostorScores → (seen s = true ↔ thr < s) := by
      intro s hs
      refine ⟨fun hseen => habove s hs hseen thr List.mem_cons_self, fun hlt => ?_⟩
      refine (hcover s hs).resolve_right fun hmem => ?_
      obtain rfl | hmem := List.mem_cons.mp hmem
      · exact lt_irrefl _ hlt
      · exact lt_asymm hlt (hbelow s hmem)
    have hcover' : ∀ s, s ∈ trueScores ∨ s ∈ impostorScores →
        decide (thr ≤ s) = true ∨ s ∈ ths := by
      intro s hs
      obtain hseen | hmem := hcover s hs
      · exact .inl (decide_eq_true ((hnext s hs).mp hseen).le)
      · obtain rfl | hmem := List.mem_cons.mp hmem
        · exact .inl (decide_eq_true le_rfl)
        · exact .inr hmem
    have htail := ih hrest (fun s => decide (thr ≤ s)) hcover' fun s _ hle thr' hthr' =>
      (hbelow thr' hthr').trans_le (of_decide_eq_true hle)
    have hrate : ∀ scores : List ℚ, share scores (fun s => decide (thr ≤ s)) = rate scores thr :=
      fun _ => rfl
    rw [hrate, hrate] at htail
    have hT' : ∀ s ∈ trueScores, seen s = true ↔ thr < s := fun s hs => hnext s (.inl hs)
    have hI' : ∀ s ∈ impostorScores, seen s = true ↔ thr < s := fun s hs => hnext s (.inr hs)
    rw [List.map_cons, List.map_cons, List.cons_append, List.cons_append, trapezoid_cons, htail,
      sum_next _ hI', outcome_sum hT']
    unfold share rate
    rw [length_filter_next hT', length_filter_next hI']
    push_cast
    field_simp
    ring

/-- In the order of the thresholds the area is the probability. -/
theorem area_eq_mannWhitney (hT : trueScores ≠ []) (hI : impostorScores ≠ []) :
    trapezoid (curve (thresholds trueScores impostorScores) trueScores)
        (curve (thresholds trueScores impostorScores) impostorScores)
      = mannWhitney trueScores impostorScores := by
  have harea := area_from trueScores impostorScores hT hI
    (thresholds_sorted trueScores impostorScores) (fun _ => false)
    (fun s hs => .inr ((mem_thresholds trueScores impostorScores).mpr hs))
    fun _ _ h => absurd h Bool.false_ne_true
  have hzero : ∀ scores : List ℚ, share scores (fun _ => false) = 0 := by
    intro scores
    simp [share]
  have hall : impostorScores.filter (fun _ => !false) = impostorScores :=
    List.filter_eq_self.mpr fun _ _ => rfl
  rw [hzero, hzero, hall] at harea
  exact harea

/-! The curve in the order of `argsort`. -/

section
omit trueScores impostorScores

theorem curve_zero (ths scores : List ℚ) : (curve ths scores).getD 0 0 = 0 := rfl

theorem curve_succ {ths : List ℚ} (scores : List ℚ) {j : Nat} (hj : j < ths.length) :
    (curve ths scores).getD (j + 1) 0 = rate scores ths[j] := by
  unfold curve
  rw [List.append_assoc, List.singleton_append, List.getD_cons_succ,
    List.getD_append _ _ _ _ (by simpa using hj), List.getD_eq_getElem _ _ (by simpa using hj),
    List.getElem_map]

theorem curve_last (ths scores : List ℚ) : (curve ths scores).getD (ths.length + 1) 0 = 1 := by
  unfold curve
  rw [List.getD_append_right _ _ _ _ (by simp)]
  simp

theorem getD_mono {xs : List ℚ} (h : xs.Pairwise (· ≤ ·)) {i j : Nat} (hij : i ≤ j)
    (hj : j < xs.length) : xs.getD i 0 ≤ xs.getD j 0 := by
  rw [List.getD_eq_getElem _ _ (hij.trans_lt hj), List.getD_eq_getElem _ _ hj]
  obtain hlt | rfl := hij.lt_or_eq
  · exact List.pairwise_iff_getElem.mp h i j _ hj hlt
  · exact le_rfl

theorem map_getD_range (xs : List ℚ) : (List.range xs.length).map (xs.getD · 0) = xs := by
  refine List.ext_getElem (by simp) fun i hi hi' => ?_
  rw [List.getElem_map, List.getElem_range, List.getD_eq_getElem _ _ hi']

theorem Argsort.length_order (xs : List ℚ) : (argsort.order xs).length = xs.length := by
  rw [(argsort.perm xs).length_eq, List.length_range]

theorem Argsort.order_lt (xs : List ℚ) {i : Nat} (hi : i < xs.length) :
    (argsort.order xs).getD i 0 < xs.length := by
  have hlength := argsort.length_order xs
  rw [List.getD_eq_getElem _ _ (by omega)]
  exact List.mem_range.mp ((argsort.perm xs).mem_iff.mp (List.getElem_mem _))

/-- What `argsort` makes of a list that is in order already. -/
theorem Argsort.sorted_eq {xs : List ℚ} (h : xs.Pairwise (· ≤ ·)) :
    (argsort.order xs).map (xs.getD · 0) = xs := by
  have hperm := (argsort.perm xs).map (xs.getD · 0)
  rw [map_getD_range] at hperm
  exact hperm.eq_of_pairwise' (argsort.sorts xs) h

theorem Argsort.getD_order (xs ys : List ℚ) {i : Nat} (hi : i < xs.length) :
    ((argsort.order xs).map (ys.getD · 0)).getD i 0 = ys.getD ((argsort.order xs).getD i 0) 0 := by
  have hlength := argsort.length_order xs
  rw [List.getD_eq_getElem _ _ (by rw [List.length_map]; omega), List.getElem_map,
    List.getD_eq_getElem (argsort.order xs) _ (by omega)]

theorem searchsorted_spec (xs : List ℚ) (v : ℚ) :
    (∀ i < searchsortedRight xs v, xs.getD i 0 ≤ v) ∧
      (searchsortedRight xs v < xs.length → v < xs.getD (searchsortedRight xs v) 0) := by
  induction xs with
  | nil => exact ⟨fun i hi => absurd hi (Nat.not_lt_zero i), fun h => absurd h (lt_irrefl 0)⟩
  | cons a xs ih =>
    unfold searchsortedRight at ih ⊢
    by_cases ha : a ≤ v
    · rw [List.takeWhile_cons_of_pos (by simpa using ha), List.length_cons]
      refine ⟨fun i hi => ?_, fun hlt => ?_⟩
      · cases i with
        | zero => exact ha
        | succ i => exact ih.1 i (Nat.succ_lt_succ_iff.mp hi)
      · exact ih.2 (Nat.succ_lt_succ_iff.mp hlt)
    · rw [List.takeWhile_cons_of_neg (by simpa using ha)]
      exact ⟨fun i hi => absurd hi (Nat.not_lt_zero i), fun _ => not_le.mp ha⟩

end

theorem curve_reordered :
    Reordered ((curve (thresholds trueScores impostorScores) impostorScores).getD · 0)
      ((curve (thresholds trueScores impostorScores) trueScores).getD · 0)
      ((argsort.order (curve (thresholds trueScores impostorScores) impostorScores)).getD · 0)
      ((thresholds trueScores impostorScores).length + 1) := by
  have hths := thresholds_sorted trueScores impostorScores
  have hfprs := curve_sorted hths impostorScores
  have hlength := length_curve (thresholds trueScores impostorScores)
  refine ⟨fun i j hij hj => getD_mono hfprs hij ?_,
    fun i j hij hj => getD_mono (curve_sorted hths trueScores) hij ?_, fun i hi => ?_,
    fun i hi => ?_⟩
  · rw [hlength]
    omega
  · rw [hlength]
    omega
  · have hlt := argsort.order_lt (curve (thresholds trueScores impostorScores) impostorScores)
      (i := i) (by rw [hlength]; omega)
    rw [hlength] at hlt
    exact Nat.le_of_lt_succ hlt
  · have hget := argsort.getD_order
      (curve (thresholds trueScores impostorScores) impostorScores)
      (curve (thresholds trueScores impostorScores) impostorScores) (i := i)
      (by rw [hlength]; omega)
    rw [argsort.sorted_eq hfprs] at hget
    exact hget.symm

/-- The place at which the TPR is read. -/
theorem tprAt_eq {target : ℚ} (htarget : 0 ≤ target) :
    ∃ k, LastAt ((curve (thresholds trueScores impostorScores) impostorScores).getD · 0)
        ((thresholds trueScores impostorScores).length + 1) target k ∧
      ∀ ys : List ℚ, ys.length = (thresholds trueScores impostorScores).length + 2 →
        tprAt (curve (thresholds trueScores impostorScores) impostorScores) ys target
          = ys.getD k 0 := by
  have hlength := length_curve (thresholds trueScores impostorScores) impostorScores
  obtain ⟨hbefore, hafter⟩ :=
    searchsorted_spec (curve (thresholds trueScores impostorScores) impostorScores) target
  have hle : searchsortedRight
      (curve (thresholds trueScores impostorScores) impostorScores) target
        ≤ (curve (thresholds trueScores impostorScores) impostorScores).length :=
    (List.takeWhile_sublist _).length_le
  have hpos : 0 < searchsortedRight
      (curve (thresholds trueScores impostorScores) impostorScores) target := by
    by_contra hzero
    have heq := Nat.eq_zero_of_not_pos hzero
    rw [heq, hlength] at hafter
    exact absurd (hafter (by omega)) (not_lt.mpr htarget)
  refine ⟨_, ⟨?_, hbefore _ (Nat.sub_one_lt_of_lt hpos), fun hlt => ?_⟩, fun ys hys => ?_⟩
  · rw [hlength] at hle
    omega
  · rw [Nat.sub_add_cancel hpos]
    exact hafter (by rw [hlength]; omega)
  · unfold tprAt
    dsimp only
    congr 1
    rw [hlength] at hle
    rw [hys]
    omega

/-- The lowest threshold lets every score pass. -/
theorem rate_lowest {scores : List ℚ} (hscores : scores ≠ [])
    (hall : ∀ s ∈ scores, s ∈ thresholds trueScores impostorScores) {j : Nat}
    (hj : j + 1 = (thresholds trueScores impostorScores).length) :
    rate scores ((thresholds trueScores impostorScores)[j]) = 1 := by
  change share scores (fun s => decide (_ ≤ s)) = 1
  refine share_all hscores fun s hs => decide_eq_true ?_
  obtain ⟨i, hi, rfl⟩ := List.getElem_of_mem (hall s hs)
  obtain hlt | heq := Nat.lt_or_eq_of_le (show i ≤ j by omega)
  · exact (List.pairwise_iff_getElem.mp (thresholds_sorted trueScores impostorScores) i j _ _
      hlt).le
  · subst heq
    exact le_rfl

/-- The TPR in the order of the thresholds. -/
theorem curve_isGreatest (hT : trueScores ≠ []) (hI : impostorScores ≠ []) {target : ℚ} {k : Nat}
    (hk : LastAt ((curve (thresholds trueScores impostorScores) impostorScores).getD · 0)
      ((thresholds trueScores impostorScores).length + 1) target k) :
    IsGreatest (tprsWithin trueScores impostorScores target)
      ((curve (thresholds trueScores impostorScores) trueScores).getD k 0) := by
  have hths := thresholds_sorted trueScores impostorScores
  have hkle := hk.le
  have hwithin := hk.within
  have hlength : ∀ scores : List ℚ, k < (curve (thresholds trueScores impostorScores)
      scores).length := by
    intro scores
    rw [length_curve]
    omega
  constructor
  · cases k with
    | zero => exact .inl (curve_zero _ _)
    | succ j =>
      obtain hj | hj := Nat.lt_or_ge j (thresholds trueScores impostorScores).length
      · rw [curve_succ impostorScores hj] at hwithin
        exact .inr ⟨_, List.getElem_mem hj, hwithin, (curve_succ trueScores hj).symm⟩
      · have hlast : j = (thresholds trueScores impostorScores).length := by omega
        subst hlast
        rw [curve_last] at hwithin ⊢
        obtain ⟨s, hs⟩ := List.exists_mem_of_ne_nil _ hT
        have hmem := (mem_thresholds trueScores impostorScores).mpr (.inl hs)
        obtain ⟨j, hj⟩ := Nat.exists_eq_succ_of_ne_zero (List.length_pos_of_mem hmem).ne'
        refine .inr ⟨_, List.getElem_mem (show j < _ by omega), ?_, ?_⟩
        · rw [rate_lowest trueScores impostorScores hI (fun s hs =>
            (mem_thresholds trueScores impostorScores).mpr (.inr hs)) hj.symm]
          exact hwithin
        · exact rate_lowest trueScores impostorScores hT (fun s hs =>
            (mem_thresholds trueScores impostorScores).mpr (.inl hs)) hj.symm
  · rintro tpr (rfl | ⟨thr, hthr, hfpr, rfl⟩)
    · rw [← curve_zero (thresholds trueScores impostorScores) trueScores]
      exact getD_mono (curve_sorted hths trueScores) (Nat.zero_le k) (hlength trueScores)
    · obtain ⟨j, hj, rfl⟩ := List.getElem_of_mem hthr
      have hindex : j + 1 ≤ k := by
        refine hk.index_le (fun i i' hii' hi' => ?_) (by omega) ?_
        · exact getD_mono (curve_sorted hths impostorScores) hii' (by rw [length_curve]; omega)
        · rw [curve_succ impostorScores hj]
          exact hfpr
      rw [← curve_succ trueScores hj]
      exact getD_mono (curve_sorted hths trueScores) hindex (hlength trueScores)

theorem auc_eq (hT : trueScores ≠ []) (hI : impostorScores ≠ []) (fprTargets : List ℚ) :
    (rocTprAtFpr argsort ci95Proportion trueScores impostorScores fprTargets).auc
        = mannWhitney trueScores impostorScores ↔
      area ((curve (thresholds trueScores impostorScores) impostorScores).getD · 0)
          (fun i => (curve (thresholds trueScores impostorScores) trueScores).getD
            ((argsort.order (curve (thresholds trueScores impostorScores)
              impostorScores)).getD i 0) 0)
          ((thresholds trueScores impostorScores).length + 1)
        = area ((curve (thresholds trueScores impostorScores) impostorScores).getD · 0)
          ((curve (thresholds trueScores impostorScores) trueScores).getD · 0)
          ((thresholds trueScores impostorScores).length + 1) := by
  have hfprs := curve_sorted (thresholds_sorted trueScores impostorScores) impostorScores
  have hlength := length_curve (thresholds trueScores impostorScores) impostorScores
  rw [← area_eq_mannWhitney trueScores impostorScores hT hI]
  unfold rocTprAtFpr trapezoid
  dsimp only
  rw [argsort.sorted_eq hfprs, hlength]
  refine Eq.congr_left (area_congr fun i hi => ?_)
  exact argsort.getD_order _ _ (by rw [hlength]; omega)

theorem reported_iff (hT : trueScores ≠ []) (hI : impostorScores ≠ []) {target : ℚ}
    (htarget : 0 ≤ target) {k : Nat}
    (hk : LastAt ((curve (thresholds trueScores impostorScores) impostorScores).getD · 0)
      ((thresholds trueScores impostorScores).length + 1) target k) :
    IsGreatest (tprsWithin trueScores impostorScores target)
        (tprAt
          ((argsort.order (curve (thresholds trueScores impostorScores) impostorScores)).map
            ((curve (thresholds trueScores impostorScores) impostorScores).getD · 0))
          ((argsort.order (curve (thresholds trueScores impostorScores) impostorScores)).map
            ((curve (thresholds trueScores impostorScores) trueScores).getD · 0)) target) ↔
      (curve (thresholds trueScores impostorScores) trueScores).getD
          ((argsort.order (curve (thresholds trueScores impostorScores) impostorScores)).getD k 0)
          0
        = (curve (thresholds trueScores impostorScores) trueScores).getD k 0 := by
  have hfprs := curve_sorted (thresholds_sorted trueScores impostorScores) impostorScores
  have hlength := length_curve (thresholds trueScores impostorScores) impostorScores
  have hgreatest := curve_isGreatest trueScores impostorScores hT hI hk
  obtain ⟨k', hk', hread⟩ := tprAt_eq trueScores impostorScores htarget
  have hkle := hk.le
  obtain rfl := hk.unique hk' (curve_reordered argsort trueScores impostorScores).xmono
  rw [argsort.sorted_eq hfprs, hread _ (by rw [List.length_map, argsort.length_order, hlength]),
    argsort.getD_order _ _ (by rw [hlength]; omega)]
  exact ⟨fun h => h.unique hgreatest, fun h => h ▸ hgreatest⟩

theorem keepsCorners_iff :
    KeepsCorners argsort trueScores impostorScores ↔
      (∀ i < (thresholds trueScores impostorScores).length + 1,
        (curve (thresholds trueScores impostorScores) impostorScores).getD i 0
            < (curve (thresholds trueScores impostorScores) impostorScores).getD (i + 1) 0 →
          (curve (thresholds trueScores impostorScores) trueScores).getD
              ((argsort.order (curve (thresholds trueScores impostorScores)
                impostorScores)).getD i 0) 0
            = (curve (thresholds trueScores impostorScores) trueScores).getD i 0 ∧
          (curve (thresholds trueScores impostorScores) trueScores).getD
              ((argsort.order (curve (thresholds trueScores impostorScores)
                impostorScores)).getD (i + 1) 0) 0
            = (curve (thresholds trueScores impostorScores) trueScores).getD (i + 1) 0) ∧
      (curve (thresholds trueScores impostorScores) trueScores).getD
          ((argsort.order (curve (thresholds trueScores impostorScores) impostorScores)).getD
            ((thresholds trueScores impostorScores).length + 1) 0) 0
        = (curve (thresholds trueScores impostorScores) trueScores).getD
          ((thresholds trueScores impostorScores).length + 1) 0 := by
  unfold KeepsCorners
  dsimp only
  rw [length_curve]
  exact and_congr (forall_congr' fun i => imp_congr Nat.succ_lt_succ_iff Iff.rfl) Iff.rfl

/-- The area is the probability and the rates reported are the largest within their targets,
exactly if `argsort` keeps the corners of the curve. -/
theorem roc_iff_keepsCorners (hT : trueScores ≠ []) (hI : impostorScores ≠ []) :
    (∀ fprTargets, (∀ target ∈ fprTargets, 0 ≤ target ∧ target ≤ 1) →
      (rocTprAtFpr argsort ci95Proportion trueScores impostorScores fprTargets).auc
          = mannWhitney trueScores impostorScores ∧
        List.Forall₂ (fun target result => result.1 = target ∧
            IsGreatest (tprsWithin trueScores impostorScores target) result.2.1)
          fprTargets
          (rocTprAtFpr argsort ci95Proportion trueScores impostorScores fprTargets).results) ↔
    KeepsCorners argsort trueScores impostorScores := by
  rw [keepsCorners_iff, ← curve_iff (curve_reordered argsort trueScores impostorScores)]
  constructor
  · intro hall
    refine ⟨?_, fun target k hlow hhigh hk => ?_⟩
    · have hauc := (hall [] fun _ h => absurd h List.not_mem_nil).1
      exact (auc_eq argsort ci95Proportion trueScores impostorScores hT hI []).mp hauc
    · have hzero : 0 ≤ target := hlow
      have hone : target ≤ 1 := hhigh.trans_eq (curve_last _ _)
      have hresult := (hall [target] fun t ht => by
        rw [List.mem_singleton.mp ht]
        exact ⟨hzero, hone⟩).2
      have hgreatest := (List.forall₂_cons.mp hresult).1.2
      exact (reported_iff argsort trueScores impostorScores hT hI hzero hk).mp hgreatest
  · rintro ⟨harea, hread⟩ fprTargets htargets
    refine ⟨(auc_eq argsort ci95Proportion trueScores impostorScores hT hI _).mpr harea, ?_⟩
    refine List.forall₂_map_right_iff.mpr (List.forall₂_same.mpr fun target htarget => ⟨rfl, ?_⟩)
    obtain ⟨hzero, hone⟩ := htargets target htarget
    obtain ⟨k, hk, -⟩ := tprAt_eq trueScores impostorScores hzero
    refine (reported_iff argsort trueScores impostorScores hT hI hzero hk).mpr ?_
    exact hread target k hzero (hone.trans_eq (curve_last _ _).symm) hk

section
omit argsort ci95Proportion trueScores impostorScores

def byValue (xs : List ℚ) (i j : Nat) : Prop := xs.getD i 0 ≤ xs.getD j 0

instance (xs : List ℚ) : DecidableRel (byValue xs) := fun i j =>
  inferInstanceAs (Decidable (xs.getD i 0 ≤ xs.getD j 0))

instance (xs : List ℚ) : Std.Total (byValue xs) := ⟨fun _ _ => le_total _ _⟩

instance (xs : List ℚ) : IsTrans Nat (byValue xs) := ⟨fun _ _ _ => le_trans⟩

/-- With `kind="stable"`. -/
def stableArgsort : Argsort where
  order xs := (List.range xs.length).insertionSort (byValue xs)
  perm _ := List.perm_insertionSort _ _
  sorts _ := List.pairwise_map.mpr (List.pairwise_insertionSort _ _)

end

/-- A stable sort keeps the corners. -/
theorem stableArgsort_keepsCorners : KeepsCorners stableArgsort trueScores impostorScores := by
  have hfprs := curve_sorted (thresholds_sorted trueScores impostorScores) impostorScores
  have hlength := length_curve (thresholds trueScores impostorScores) impostorScores
  have horder : stableArgsort.order
      (curve (thresholds trueScores impostorScores) impostorScores)
        = List.range (curve (thresholds trueScores impostorScores) impostorScores).length := by
    refine List.Pairwise.insertionSort_eq (List.pairwise_lt_range.imp_of_mem ?_)
    intro i j _ hj hij
    exact getD_mono hfprs hij.le (List.mem_range.mp hj)
  have hget : ∀ i < (curve (thresholds trueScores impostorScores) impostorScores).length,
      (stableArgsort.order (curve (thresholds trueScores impostorScores)
        impostorScores)).getD i 0 = i := by
    intro i hi
    rw [horder, List.getD_eq_getElem _ _ (by simpa using hi), List.getElem_range]
  refine ⟨fun i hi _ => ?_, ?_⟩
  · rw [hget i (by omega), hget (i + 1) hi]
    exact ⟨rfl, rfl⟩
  · rw [hget _ (by rw [hlength]; omega)]

/-- Scores that overlap, with ties in and across the two lists. -/
theorem roc_iff_keepsCorners_stable :
    (rocTprAtFpr stableArgsort (fun _ _ => ()) [2, 3, 3] [1, 2, 3] [0, 1 / 3, 1]).auc
        = mannWhitney [2, 3, 3] [1, 2, 3] ∧
      mannWhitney [2, 3, 3] [1, 2, 3] = 13 / 18 ∧
      List.Forall₂ (fun target result => result.1 = target ∧
          IsGreatest (tprsWithin [2, 3, 3] [1, 2, 3] target) result.2.1)
        [0, 1 / 3, 1]
        (rocTprAtFpr stableArgsort (fun _ _ => ()) [2, 3, 3] [1, 2, 3] [0, 1 / 3, 1]).results := by
  obtain ⟨hauc, hresults⟩ := (roc_iff_keepsCorners stableArgsort (fun _ _ => ()) [2, 3, 3] [1, 2, 3]
    (by decide) (by decide)).mpr (stableArgsort_keepsCorners [2, 3, 3] [1, 2, 3]) [0, 1 / 3, 1]
      (by decide +kernel)
  exact ⟨hauc, by decide +kernel, hresults⟩

/-- Sixteen zeros and two ones are put into the order in which the quicksort of `np.argsort`
leaves them. -/
def quickArgsort : Argsort where
  order xs :=
    if xs = List.replicate 16 0 ++ [1, 1] then
      [0, 15, 14, 13, 12, 11, 10, 9, 8, 7, 6, 5, 4, 3, 2, 1, 16, 17]
    else stableArgsort.order xs
  perm xs := by
    split
    · rename_i h
      rw [h]
      decide
    · exact stableArgsort.perm xs
  sorts xs := by
    split
    · rename_i h
      rw [h]
      decide +kernel
    · exact stableArgsort.sorts xs

/-- Fifteen true scores above the one impostor score. -/
theorem quicksort_spoils_curve :
    (rocTprAtFpr quickArgsort (fun _ _ => ()) [2, 3, 4, 5, 6, 7, 8, 9, 10, 11, 12, 13, 14, 15, 16]
        [1] [0]).auc = 8 / 15 ∧
      mannWhitney [2, 3, 4, 5, 6, 7, 8, 9, 10, 11, 12, 13, 14, 15, 16] [1] = 1 ∧
      (rocTprAtFpr quickArgsort (fun _ _ => ())
        [2, 3, 4, 5, 6, 7, 8, 9, 10, 11, 12, 13, 14, 15, 16] [1] [0]).results
          = [(0, 1 / 15, ())] ∧
      ¬ IsGreatest (tprsWithin [2, 3, 4, 5, 6, 7, 8, 9, 10, 11, 12, 13, 14, 15, 16] [1] 0)
        (1 / 15) := by
  refine ⟨by decide +kernel, by decide +kernel, by decide +kernel, fun h => ?_⟩
  have hone : (1 : ℚ) ∈ tprsWithin [2, 3, 4, 5, 6, 7, 8, 9, 10, 11, 12, 13, 14, 15, 16] [1] 0 :=
    .inr ⟨2, by decide +kernel, by decide +kernel, by decide +kernel⟩
  exact absurd (h.2 hone) (by norm_num)

end AnonSecNet.Evaluation
