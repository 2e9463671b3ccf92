import AnonSecNet.Foundation.Machine

/-! What an observer sees of a run, when the view of the next state depends on the view and on
what there is to see of the action. -/
namespace Unwinding
variable {σ α β V : Type*} {step : σ → α → σ} {view : σ → V} {vstep : V → β → V}
  {see : α → Option β} {allowed : α → Prop}

theorem view_run (hhide : ∀ s a, see a = none → view (step s a) = view s)
    (hsee : ∀ s a b, see a = some b → allowed a → view (step s a) = vstep (view s) b)
    {as : List α} (has : ∀ a ∈ as, allowed a) (s : σ) :
    view (Machine.run step as s) = Machine.run vstep (as.filterMap see) (view s) := by
  induction as generalizing s with
  | nil => rfl
  | cons a as ih =>
    obtain ⟨ha, has⟩ := List.forall_mem_cons.mp has
    change view (Machine.run step as (step s a)) = _
    rw [ih has]
    cases h : see a with
    | none => rw [hhide s a h, List.filterMap_cons_none h]
    | some b =>
      rw [hsee s a b h ha, List.filterMap_cons_some h]
      rfl

/-- Two runs with the same actions to see look the same. -/
theorem view_eq (hhide : ∀ s a, see a = none → view (step s a) = view s)
    (hsee : ∀ s a b, see a = some b → allowed a → view (step s a) = vstep (view s) b)
    {as bs : List α} (has : ∀ a ∈ as, allowed a) (hbs : ∀ a ∈ bs, allowed a)
    (heq : as.filterMap see = bs.filterMap see) {s t : σ} (hst : view s = view t) :
    view (Machine.run step as s) = view (Machine.run step bs t) := by
  rw [view_run hhide hsee has, view_run hhide hsee hbs, heq, hst]

end Unwinding
