import AnonSecNet.Foundation.Machine
import AnonSecNet.Foundation.SortedSplit
import Mathlib.Data.Finset.Dedup
import Mathlib.Data.Finset.Order
import Mathlib.Data.Sum.Basic
import Mathlib.Order.Basic

/-! A loop over the ticks of a clock that, at every tick, first takes the items which are due:
as a run over items and ticks in one order. -/
namespace AnonSecNet.Sweep
variable {σ τ α T : Type*} (take : σ → α → σ) (tick : σ → T → σ) (due : T → α → Bool)

/-- `items` are those still to come. -/
def sweep : List α → List T → σ → σ
  | _, [], s => s
  | items, t :: ticks, s =>
    sweep (items.dropWhile (due t)) ticks (tick ((items.takeWhile (due t)).foldl take s) t)

/-- The items that come before the last tick, and the ticks. -/
def merged : List α → List T → List (α ⊕ T)
  | _, [] => []
  | items, t :: ticks =>
    (items.takeWhile (due t)).map .inl ++ .inr t :: merged (items.dropWhile (due t)) ticks

/-- The items that no tick comes after. -/
def leftover : List α → List T → List α
  | items, [] => items
  | items, t :: ticks => leftover (items.dropWhile (due t)) ticks

def step (s : σ) : α ⊕ T → σ
  | .inl a => take s a
  | .inr t => tick s t

theorem run_map_inl (items : List α) (s : σ) :
    Machine.run (step take tick) (items.map .inl) s = items.foldl take s := by
  induction items generalizing s with
  | nil => rfl
  | cons a items ih => exact ih (take s a)

theorem sweep_eq_run (items : List α) (ticks : List T) (s : σ) :
    sweep take tick due items ticks s
      = Machine.run (step take tick) (merged due items ticks) s := by
  induction ticks generalizing items s with
  | nil => rfl
  | cons t ticks ih =>
    unfold sweep merged
    rw [ih, Machine.run_append, run_map_inl]
    rfl

/-- Every item is taken or left over. -/
theorem items_eq (items : List α) (ticks : List T) :
    (merged due items ticks).filterMap Sum.getLeft? ++ leftover due items ticks = items := by
  induction ticks generalizing items with
  | nil => rfl
  | cons t ticks ih =>
    have hleft : ∀ l : List α, (l.map (.inl : α → α ⊕ T)).filterMap Sum.getLeft? = l := by
      intro l
      rw [List.filterMap_map]
      exact List.filterMap_some
    have hsplit := List.takeWhile_append_dropWhile (p := due t) (l := items)
    unfold merged leftover
    rw [List.filterMap_append, hleft, List.append_assoc]
    change _ ++ ((merged due (items.dropWhile (due t)) ticks).filterMap Sum.getLeft? ++ _) = items
    rw [ih, hsplit]

theorem ticks_eq (items : List α) (ticks : List T) :
    (merged due items ticks).filterMap Sum.getRight? = ticks := by
  induction ticks generalizing items with
  | nil => rfl
  | cons t ticks ih =>
    have hright : ∀ l : List α, (l.map (.inl : α → α ⊕ T)).filterMap Sum.getRight? = [] := by
      intro l
      rw [List.filterMap_map]
      exact List.filterMap_eq_nil_iff.mpr fun _ _ => rfl
    unfold merged
    rw [List.filterMap_append, hright, List.nil_append]
    exact congrArg (t :: ·) (ih _)

theorem mem_items {items : List α} {ticks : List T} {a : α}
    (h : .inl a ∈ merged due items ticks) : a ∈ items := by
  rw [← items_eq due items ticks]
  exact List.mem_append_left _ (List.mem_filterMap.mpr ⟨.inl a, h, rfl⟩)

theorem mem_ticks {items : List α} {ticks : List T} {t : T}
    (h : .inr t ∈ merged due items ticks) : t ∈ ticks := by
  rw [← ticks_eq due items ticks]
  exact List.mem_filterMap.mpr ⟨.inr t, h, rfl⟩

/-! Items and ticks with times. -/

section
variable [LinearOrder T] (time : α → T)

/-- When an item or a tick comes. -/
def timeOf : α ⊕ T → T
  | .inl a => time a
  | .inr t => t

/-- An item is due at a tick that it does not come after. -/
def dueBy (t : T) (a : α) : Bool := time a ≤ t

/-- Items by time and ticks by time come by time. -/
theorem merged_sorted {items : List α} (hitems : items.Pairwise fun a b => time a ≤ time b)
    {ticks : List T} (hticks : ticks.Pairwise (· ≤ ·)) :
    (merged (dueBy time) items ticks).Pairwise fun x y => timeOf time x ≤ timeOf time y := by
  induction ticks generalizing items with
  | nil => exact List.Pairwise.nil
  | cons t ticks ih =>
    obtain ⟨hlater, hticks⟩ := List.pairwise_cons.mp hticks
    have hdue : ∀ a b, time a ≤ time b → dueBy time t b = true → dueBy time t a = true := by
      intro a b hab hb
      simp only [dueBy, decide_eq_true_eq] at hb ⊢
      exact hab.trans hb
    have htaken : ∀ a ∈ items.takeWhile (dueBy time t), time a ≤ t := by
      intro a ha
      simpa [dueBy] using List.mem_takeWhile_imp ha
    have hrest : ∀ a ∈ items.dropWhile (dueBy time t), t ≤ time a := by
      intro a ha
      rw [SortedSplit.dropWhile_eq_filter hdue hitems] at ha
      have := (List.mem_filter.mp ha).2
      simp only [dueBy, Bool.not_eq_true', decide_eq_false_iff_not, not_le] at this
      exact this.le
    have hafter : ∀ x ∈ merged (dueBy time) (items.dropWhile (dueBy time t)) ticks,
        t ≤ timeOf time x := by
      intro x hx
      cases x with
      | inl a => exact hrest a (mem_items _ hx)
      | inr t' => exact hlater t' (mem_ticks _ hx)
    unfold merged
    rw [List.pairwise_append]
    refine ⟨?_, List.pairwise_cons.mpr ⟨hafter, ?_⟩, ?_⟩
    · rw [List.pairwise_map]
      exact hitems.sublist (List.takeWhile_sublist _)
    · exact ih (hitems.sublist (List.dropWhile_sublist _)) hticks
    · intro x hx y hy
      obtain ⟨a, ha, rfl⟩ := List.mem_map.mp hx
      obtain rfl | hy := List.mem_cons.mp hy
      · exact htaken a ha
      · exact (htaken a ha).trans (hafter y hy)

end

/-- A run over events in the order of their times keeps what each of them keeps at its time. -/
theorem run_timed {ε : Type*} [Preorder T] {time : ε → T} {step : σ → ε → σ} {P : T → σ → Prop}
    (hmono : ∀ t t' s, t ≤ t' → P t s → P t' s)
    (hstep : ∀ s e, P (time e) s → P (time e) (step s e)) {es : List ε}
    (hes : es.Pairwise fun x y => time x ≤ time y) {s : σ} {t : T}
    (hs : ∀ e ∈ es, P (time e) s) (hbefore : P t s) (hlast : ∀ e ∈ es, time e ≤ t) :
    P t (Machine.run step es s) := by
  induction es generalizing s with
  | nil => exact hbefore
  | cons e es ih =>
    obtain ⟨hfirst, hes⟩ := List.pairwise_cons.mp hes
    have hnow := hstep s e (hs e List.mem_cons_self)
    refine ih hes (fun e' he' => hmono _ _ _ (hfirst e' he') hnow) ?_ fun e' he' =>
      hlast e' (List.mem_cons_of_mem e he')
    exact hmono _ _ _ (hlast e List.mem_cons_self) hnow

/-- From a state that is fine at any time the run ends in one that is fine at some time. -/
theorem run_timed_end {ε : Type*} [LinearOrder T] [Nonempty T] {time : ε → T} {step : σ → ε → σ}
    {P : T → σ → Prop} (hmono : ∀ t t' s, t ≤ t' → P t s → P t' s)
    (hstep : ∀ s e, P (time e) s → P (time e) (step s e)) {es : List ε}
    (hes : es.Pairwise fun x y => time x ≤ time y) {s : σ} (hs : ∀ t, P t s) :
    ∃ t, P t (Machine.run step es s) := by
  obtain ⟨t, ht⟩ := (es.map time).toFinset.exists_le
  refine ⟨t, run_timed hmono hstep hes (fun e _ => hs (time e)) (hs t) fun e he => ?_⟩
  exact ht (time e) (List.mem_toFinset.mpr (List.mem_map_of_mem he))

end AnonSecNet.Sweep
