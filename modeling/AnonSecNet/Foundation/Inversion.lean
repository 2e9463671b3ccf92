import Mathlib.Algebra.BigOperators.Group.List.Basic
import Mathlib.Algebra.Order.Archimedean.Basic
import Mathlib.Algebra.Order.BigOperators.Group.List
import Mathlib.Algebra.Order.Floor.Semiring
import Mathlib.Data.Rat.Floor
import Mathlib.Data.Set.Card
import Mathlib.Order.Interval.Finset.Nat
import Mathlib.SetTheory.Cardinal.Finite
import Mathlib.Tactic.Linarith

/-! Drawing by weight: the first element whose cumulative weight reaches what was drawn, and how
many draws of `N` equally likely ones give an element. -/
namespace Inversion
variable {α : Type*}

section
variable (reached : ℚ → Prop) [DecidablePred reached] (weight : α → ℚ)

/-- The loop over the elements. -/
def pick : ℚ → List α → Option α
  | _, [] => none
  | cum, a :: rest =>
    if reached (cum + weight a) then some a else pick (cum + weight a) rest

def mass (as : List α) : ℚ := (as.map weight).sum

variable {reached weight} {before after : List α} {a : α}

theorem mass_nonneg (h : ∀ b ∈ before, 0 ≤ weight b) : 0 ≤ mass weight before :=
  List.sum_nonneg fun _ hw => by
    obtain ⟨b, hb, rfl⟩ := List.mem_map.mp hw
    exact h b hb

/-- What is reached before `a` is not reached until `a`. -/
theorem pick_eq (hmono : ∀ c d, c ≤ d → reached c → reached d)
    (hweight : ∀ b ∈ before, 0 ≤ weight b) {cum : ℚ}
    (hbefore : before ≠ [] → ¬ reached (cum + mass weight before))
    (hreached : reached (cum + mass weight before + weight a)) :
    pick reached weight cum (before ++ a :: after) = some a := by
  induction before generalizing cum with
  | nil =>
    rw [mass, List.map_nil, List.sum_nil, add_zero] at hreached
    exact if_pos hreached
  | cons b before ih =>
    have hrest : ∀ c ∈ before, 0 ≤ weight c := fun c hc => hweight c (List.mem_cons_of_mem b hc)
    have hmass : cum + mass weight (b :: before) = cum + weight b + mass weight before := by
      rw [mass, List.map_cons, List.sum_cons, ← add_assoc]
      rfl
    rw [hmass] at hbefore hreached
    have hskip : ¬ reached (cum + weight b) := fun h =>
      hbefore (List.cons_ne_nil b before)
        (hmono _ _ (le_add_of_nonneg_right (mass_nonneg hrest)) h)
    rw [List.cons_append, pick, if_neg hskip]
    exact ih hrest (fun _ => hbefore (List.cons_ne_nil b before)) hreached

theorem pick_mem {cum : ℚ} {as : List α} (h : pick reached weight cum as = some a) : a ∈ as := by
  induction as generalizing cum with
  | nil => cases h
  | cons b as ih =>
    rw [pick] at h
    split at h
    · obtain rfl := Option.some.inj h
      exact List.mem_cons_self
    · exact List.mem_cons_of_mem b (ih h)

theorem pick_isSome {cum : ℚ} {as : List α} (hne : as ≠ [])
    (h : reached (cum + mass weight as)) : (pick reached weight cum as).isSome := by
  induction as generalizing cum with
  | nil => exact absurd rfl hne
  | cons b as ih =>
    rw [mass, List.map_cons, List.sum_cons, ← add_assoc] at h
    rw [pick]
    split
    · rfl
    · rename_i hskip
      apply ih
      · intro hnil
        rw [hnil, List.map_nil, List.sum_nil, add_zero] at h
        exact hskip h
      · exact h

theorem reached_of_pick {cum : ℚ} (hnodup : (before ++ a :: after).Nodup)
    (h : pick reached weight cum (before ++ a :: after) = some a) :
    (before ≠ [] → ¬ reached (cum + mass weight before)) ∧
      reached (cum + mass weight before + weight a) := by
  induction before generalizing cum with
  | nil =>
    refine ⟨fun hne => absurd rfl hne, ?_⟩
    rw [List.nil_append, pick] at h
    rw [mass, List.map_nil, List.sum_nil, add_zero]
    split at h
    · rename_i hreached
      exact hreached
    · exact absurd (pick_mem h) (List.nodup_cons.mp hnodup).1
  | cons b before ih =>
    obtain ⟨hb, hnodup⟩ := List.nodup_cons.mp hnodup
    have hmass : cum + mass weight (b :: before) = cum + weight b + mass weight before := by
      rw [mass, List.map_cons, List.sum_cons, ← add_assoc]
      rfl
    rw [List.cons_append, pick] at h
    split at h
    · obtain rfl := Option.some.inj h
      exact absurd (List.mem_append_right before List.mem_cons_self) hb
    · rename_i hskip
      obtain ⟨hbefore, hreached⟩ := ih hnodup h
      rw [hmass]
      refine ⟨fun _ => ?_, hreached⟩
      by_cases hnil : before = []
      · subst hnil
        rwa [mass, List.map_nil, List.sum_nil, add_zero]
      · exact hbefore hnil

end

/-- A set of numbers that is an interval but for its ends has as many members as the interval is
long, to within one. -/
theorem card_between {s : Finset Nat} {lo hi : ℚ} (h0 : 0 ≤ lo) (hle : lo ≤ hi)
    (hin : ∀ m ∈ s, lo ≤ m ∧ m ≤ hi) (hall : ∀ m : Nat, lo < m → m < hi → m ∈ s) :
    |(s.card : ℚ) - (hi - lo)| ≤ 1 := by
  have hup : (s.card : ℚ) ≤ hi - lo + 1 := by
    have hsub : s ⊆ Finset.Icc ⌈lo⌉₊ ⌊hi⌋₊ := fun m hm =>
      Finset.mem_Icc.mpr ⟨Nat.ceil_le.mpr (hin m hm).1, Nat.le_floor (hin m hm).2⟩
    have hcard := Finset.card_le_card hsub
    rw [Nat.card_Icc] at hcard
    have hfloor : (⌊hi⌋₊ : ℚ) ≤ hi := Nat.floor_le (h0.trans hle)
    have hceil : lo ≤ ⌈lo⌉₊ := Nat.le_ceil lo
    have hbound : ⌈lo⌉₊ ≤ ⌊hi⌋₊ + 1 := by
      rw [Nat.ceil_le]
      push_cast
      exact hle.trans (Nat.lt_floor_add_one hi).le
    have hcast : (s.card : ℚ) ≤ ⌊hi⌋₊ + 1 - ⌈lo⌉₊ := by
      have hcast : (s.card : ℚ) ≤ ((⌊hi⌋₊ + 1 - ⌈lo⌉₊ : Nat) : ℚ) := by exact_mod_cast hcard
      rw [Nat.cast_sub hbound] at hcast
      push_cast at hcast
      exact hcast
    linarith
  have hdown : hi - lo - 1 ≤ s.card := by
    have hsub : Finset.Ioo ⌊lo⌋₊ ⌈hi⌉₊ ⊆ s := fun m hm => by
      obtain ⟨hlo, hhi⟩ := Finset.mem_Ioo.mp hm
      exact hall m (Nat.lt_of_floor_lt hlo) (Nat.lt_ceil.mp hhi)
    have hcard := Finset.card_le_card hsub
    rw [Nat.card_Ioo] at hcard
    have hfloor : (⌊lo⌋₊ : ℚ) ≤ lo := Nat.floor_le h0
    have hceil : hi ≤ ⌈hi⌉₊ := Nat.le_ceil hi
    have hcast : (⌈hi⌉₊ : ℚ) ≤ s.card + ⌊lo⌋₊ + 1 := by
      exact_mod_cast (by omega : ⌈hi⌉₊ ≤ s.card + ⌊lo⌋₊ + 1)
    linarith
  rw [abs_le]
  constructor <;> linarith

/-- A draw of one of `N` numbers, scaled to the whole mass `total`. -/
theorem card_draws {N : Nat} (hN : 0 < N) {total lo w : ℚ} (htotal : 0 < total) (hlo : 0 ≤ lo)
    (hw : 0 ≤ w) (hsum : lo + w ≤ total) {drawn : Nat → Prop} [DecidablePred drawn]
    (hin : ∀ m, m < N → drawn m → lo ≤ m / N * total ∧ m / N * total ≤ lo + w)
    (hall : ∀ m : Nat, m < N → lo < m / N * total → m / N * total < lo + w → drawn m) :
    |(((Finset.range N).filter drawn).card : ℚ) - N * (w / total)| ≤ 1 := by
  have hN' : (0 : ℚ) < N := by exact_mod_cast hN
  have hlength : N * (w / total) = (lo + w) / total * N - lo / total * N := by ring
  rw [hlength]
  apply card_between (mul_nonneg (div_nonneg hlo htotal.le) hN'.le)
  · apply mul_le_mul_of_nonneg_right _ hN'.le
    exact div_le_div_of_nonneg_right (by linarith) htotal.le
  · intro m hm
    obtain ⟨hlt, hdrawn⟩ := Finset.mem_filter.mp hm
    obtain ⟨hge, hle⟩ := hin m (Finset.mem_range.mp hlt) hdrawn
    rw [div_mul_eq_mul_div, div_mul_eq_mul_div, div_le_iff₀ htotal, le_div_iff₀ htotal]
    rw [div_mul_eq_mul_div, le_div_iff₀ hN'] at hge
    rw [div_mul_eq_mul_div, div_le_iff₀ hN'] at hle
    exact ⟨hge, hle⟩
  · intro m hge hle
    rw [div_mul_eq_mul_div, div_lt_iff₀ htotal] at hge
    rw [div_mul_eq_mul_div, lt_div_iff₀ htotal] at hle
    have hm : m < N := by
      have hlt : (m : ℚ) * total < N * total :=
        hle.trans_le (by rw [mul_comm]; exact mul_le_mul_of_nonneg_left hsum hN'.le)
      exact_mod_cast lt_of_mul_lt_mul_right hlt htotal.le
    refine Finset.mem_filter.mpr ⟨Finset.mem_range.mpr hm, hall m hm ?_ ?_⟩
    · rwa [div_mul_eq_mul_div, lt_div_iff₀ hN']
    · rwa [div_mul_eq_mul_div, div_lt_iff₀ hN']

/-- Of `N` draws `m`, where `m / N` of the whole is reached at a cumulative weight of as much,
each element is picked by its share of them, to within one. -/
theorem card_picks [DecidableEq α] {weight : α → ℚ} {as : List α} {N : Nat} (hN : 0 < N)
    (hnodup : as.Nodup) (hweight : ∀ b ∈ as, 0 ≤ weight b) (htotal : 0 < mass weight as)
    (reached : Nat → ℚ → Prop) [∀ m, DecidablePred (reached m)]
    (hreach : ∀ (m : Nat) c, reached m c → m / N * mass weight as ≤ c)
    (hskip : ∀ (m : Nat) c, ¬ reached m c → c ≤ m / N * mass weight as) {a : α} (ha : a ∈ as) :
    |(((Finset.range N).filter fun m => pick (reached m) weight 0 as = some a).card : ℚ) -
      N * (weight a / mass weight as)| ≤ 1 := by
  obtain ⟨before, after, hsplit⟩ := List.append_of_mem ha
  have hmono : ∀ (m : Nat) c d, c ≤ d → reached m c → reached m d := by
    intro m c d hcd hc
    by_contra hd
    have hdc : d ≤ c := (hskip m d hd).trans (hreach m c hc)
    exact hd (le_antisymm hcd hdc ▸ hc)
  have hbefore : ∀ b ∈ before, 0 ≤ weight b := fun b hb =>
    hweight b (hsplit ▸ List.mem_append_left _ hb)
  have hafter : 0 ≤ mass weight after := mass_nonneg fun b hb =>
    hweight b (hsplit ▸ List.mem_append_right _ (List.mem_cons_of_mem a hb))
  have hsum : mass weight before + weight a ≤ mass weight as := by
    have hmass : mass weight as = mass weight before + (weight a + mass weight after) := by
      rw [hsplit, mass, List.map_append, List.sum_append, List.map_cons, List.sum_cons]
      rfl
    linarith
  apply card_draws hN htotal (mass_nonneg hbefore) (hweight a ha) hsum
  · intro m _ hdrawn
    rw [hsplit] at hdrawn hnodup
    obtain ⟨hlow, hhigh⟩ := reached_of_pick hnodup hdrawn
    rw [zero_add] at hlow hhigh
    refine ⟨?_, hreach m _ hhigh⟩
    by_cases hnil : before = []
    · subst hnil
      exact mul_nonneg (div_nonneg (Nat.cast_nonneg _) (Nat.cast_nonneg _)) htotal.le
    · exact hskip m _ (hlow hnil)
  · intro m _ hlo hhi
    have hlow : ¬ reached m (0 + mass weight before) := by
      rw [zero_add]
      exact fun h => absurd (hreach m _ h) (not_le.mpr hlo)
    have hhigh : reached m (0 + mass weight before + weight a) := by
      rw [zero_add]
      by_contra h
      exact absurd (hskip m _ h) (not_le.mpr hhi)
    rw [hsplit]
    exact pick_eq (hmono m) hbefore (fun _ => hlow) hhigh

/-- Draws one for each `i`, the `i`-th of them in `P i`. -/
theorem ncard_draws {ι β : Type*} [Fintype ι] (P : ι → β → Prop) :
    {draws : ι → β | ∀ i, P i (draws i)}.ncard = ∏ i, {b | P i b}.ncard := by
  calc
    _ = Nat.card {draws : ι → β // ∀ i, P i (draws i)} := rfl
    _ = Nat.card (∀ i, {b // P i b}) := Nat.card_congr Equiv.subtypePiEquivPi
    _ = _ := Nat.card_pi

end Inversion
