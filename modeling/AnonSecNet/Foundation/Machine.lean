import Mathlib.Data.List.Infix

/-! Runs of a total step function: an action that is not enabled leaves the state
as it is. A property of a run is a property of every state it visits. -/
namespace Machine
variable {σ α : Type*} (step : σ → α → σ)

def run : List α → σ → σ
  | [], s => s
  | a :: as, s => run as (step s a)

theorem run_append (u v : List α) (s : σ) : run step (u ++ v) s = run step v (run step u s) := by
  induction u generalizing s with
  | nil => rfl
  | cons a u ih => exact ih (step s a)

theorem run_concat (u : List α) (a : α) (s : σ) : run step (u ++ [a]) s = step (run step u s) a :=
  run_append step u [a] s

/-- The actions of the run that are taken in a state that meets `G`. -/
def tally (G : σ → α → Prop) [∀ s a, Decidable (G s a)] : List α → σ → Nat
  | [], _ => 0
  | a :: as, s => (if G s a then 1 else 0) + tally G as (step s a)

/-- A counter that goes up with these actions. -/
theorem counter_run {G : σ → α → Prop} [∀ s a, Decidable (G s a)] {f : σ → Nat}
    (hf : ∀ s a, f (step s a) = f s + if G s a then 1 else 0) (as : List α) (s : σ) :
    f (run step as s) = f s + tally step G as s := by
  induction as generalizing s with
  | nil => rfl
  | cons a as ih =>
    change f (run step as (step s a)) = _
    rw [ih, hf, tally, Nat.add_assoc]

theorem tally_mono {G H : σ → α → Prop} [∀ s a, Decidable (G s a)] [∀ s a, Decidable (H s a)]
    (h : ∀ s a, G s a → H s a) (as : List α) (s : σ) : tally step G as s ≤ tally step H as s := by
  induction as generalizing s with
  | nil => exact Nat.le_refl 0
  | cons a as ih =>
    have hrest := ih (step s a)
    unfold tally
    by_cases hG : G s a
    · rw [if_pos hG, if_pos (h s a hG)]
      omega
    · rw [if_neg hG]
      omega

/-- What every action keeps is kept by a run. -/
theorem run_keeps (Inv : σ → Prop) (hstep : ∀ s a, Inv s → Inv (step s a)) (as : List α) {s : σ}
    (hs : Inv s) : Inv (run step as s) := by
  induction as generalizing s with
  | nil => exact hs
  | cons a as ih => exact ih (hstep s a hs)

/-- `P` holds in every state the run visits, the first and the last included. -/
def Along (P : σ → Prop) : List α → σ → Prop
  | [], s => P s
  | a :: as, s => P s ∧ Along P as (step s a)

/-- Every action of the run is taken in a state that meets `G`. -/
def StepsMeet (G : σ → α → Prop) : List α → σ → Prop
  | [], _ => True
  | a :: as, s => G s a ∧ StepsMeet G as (step s a)

/-- While the run is in `on`, a rank that no action raises and every action that counts lowers
bounds how many of those are taken. -/
theorem rank_run (Inv on : σ → Prop) (rank : σ → Nat) {G C : σ → α → Prop}
    [∀ s a, Decidable (C s a)] (hkeep : ∀ s a, Inv s → G s a → Inv (step s a))
    (hback : ∀ s a, Inv s → on (step s a) → on s)
    (hrank : ∀ s a, Inv s → G s a → on (step s a) →
      rank (step s a) + (if C s a then 1 else 0) ≤ rank s)
    {as : List α} {s : σ} (hs : Inv s) (hG : StepsMeet step G as s) (hend : on (run step as s)) :
    on s ∧ rank (run step as s) + tally step C as s ≤ rank s := by
  induction as generalizing s with
  | nil => exact ⟨hend, Nat.le_refl _⟩
  | cons a as ih =>
    obtain ⟨hon, hle⟩ := ih (hkeep s a hs hG.1) hG.2 hend
    have hdrop := hrank s a hs hG.1 hon
    refine ⟨hback s a hs hon, ?_⟩
    unfold tally
    change rank (run step as (step s a)) + _ ≤ _
    omega

theorem along_iff_segments (P : σ → Prop) (as : List α) (s : σ) :
    Along step P as s ↔ ∀ u, u <+: as → P (run step u s) := by
  induction as generalizing s with
  | nil =>
    constructor
    · intro h u hu
      rw [List.prefix_nil.mp hu]
      exact h
    · intro h
      exact h [] (List.prefix_refl [])
  | cons a as ih =>
    constructor
    · rintro ⟨hs, ht⟩ u hu
      cases u with
      | nil => exact hs
      | cons b u =>
        obtain ⟨hba, htail⟩ := List.cons_prefix_cons.mp hu
        subst hba
        exact (ih (step s b)).mp ht u htail
    · intro h
      refine ⟨h [] List.nil_prefix, (ih (step s a)).mpr fun u hu => ?_⟩
      exact h (a :: u) (List.cons_prefix_cons.mpr ⟨rfl, hu⟩)

theorem Along.head {P : σ → Prop} {as : List α} {s : σ} (h : Along step P as s) : P s := by
  cases as with
  | nil => exact h
  | cons a as => exact h.1

theorem Along.last {P : σ → Prop} {as : List α} {s : σ} (h : Along step P as s) :
    P (run step as s) := (along_iff_segments step P as s).mp h as (List.prefix_refl as)

theorem Along.mono {P Q : σ → Prop} (hPQ : ∀ s, P s → Q s) {as : List α} {s : σ}
    (h : Along step P as s) : Along step Q as s := by
  induction as generalizing s with
  | nil => exact hPQ s h
  | cons a as ih => exact ⟨hPQ s h.1, ih h.2⟩

/-- What holds at the end of a run, and of a state whenever it holds of the next one, holds
all along it. -/
theorem Along.upto {P R : σ → Prop} (hback : ∀ s a, R (step s a) → R s) {as : List α} {s : σ}
    (h : Along step P as s) (hend : R (run step as s)) :
    Along step (fun s => P s ∧ R s) as s := by
  have hstart : ∀ (as : List α) (s : σ), R (run step as s) → R s := by
    intro as
    induction as with
    | nil => exact fun s hs => hs
    | cons a as ih => exact fun s hs => hback s a (ih (step s a) hs)
  induction as generalizing s with
  | nil => exact ⟨h, hend⟩
  | cons a as ih => exact ⟨⟨h.1, hstart (a :: as) s hend⟩, ih h.2 hend⟩

/-- The counts agree exactly if no action of the run counts for one alone. -/
theorem tally_eq_iff {G H : σ → α → Prop} [∀ s a, Decidable (G s a)] [∀ s a, Decidable (H s a)]
    (h : ∀ s a, G s a → H s a) (as : List α) (s : σ) :
    tally step H as s = tally step G as s ↔ StepsMeet step (fun s a => H s a → G s a) as s := by
  induction as generalizing s with
  | nil => exact ⟨fun _ => trivial, fun _ => rfl⟩
  | cons a as ih =>
    have hle := tally_mono step h as (step s a)
    unfold StepsMeet
    rw [← ih (step s a), tally, tally]
    by_cases hG : G s a
    · rw [if_pos hG, if_pos (h s a hG)]
      simp [hG]
    · rw [if_neg hG]
      by_cases hH : H s a
      · rw [if_pos hH]
        simp only [hG, hH, imp_false, not_true, false_and, iff_false]
        omega
      · rw [if_neg hH]
        simp [hH]

/-- An invariant kept by every action that meets the guard holds all along a
run whose actions all meet it. -/
theorem along_of_stepsMeet (Inv : σ → Prop) {G : σ → α → Prop}
    (hstep : ∀ s a, Inv s → G s a → Inv (step s a)) {as : List α} {s : σ}
    (hs : Inv s) (hG : StepsMeet step G as s) : Along step Inv as s := by
  induction as generalizing s with
  | nil => exact hs
  | cons a as ih => exact ⟨hs, ih (hstep s a hs hG.1) hG.2⟩

theorem stepsMeet_append {G : σ → α → Prop} (u v : List α) (s : σ) :
    StepsMeet step G (u ++ v) s ↔ StepsMeet step G u s ∧ StepsMeet step G v (run step u s) := by
  induction u generalizing s with
  | nil => exact ⟨fun h => ⟨trivial, h⟩, fun h => h.2⟩
  | cons a u ih =>
    constructor
    · rintro ⟨ha, h⟩
      exact ⟨⟨ha, ((ih (step s a)).mp h).1⟩, ((ih (step s a)).mp h).2⟩
    · rintro ⟨⟨ha, hu⟩, hv⟩
      exact ⟨ha, (ih (step s a)).mpr ⟨hu, hv⟩⟩

theorem StepsMeet.mono {G G' : σ → α → Prop} (himp : ∀ s a, G s a → G' s a) {as : List α} {s : σ}
    (h : StepsMeet step G as s) : StepsMeet step G' as s := by
  induction as generalizing s with
  | nil => trivial
  | cons a as ih => exact ⟨himp s a h.1, ih h.2⟩

theorem StepsMeet.all {ι : Type*} {G : ι → σ → α → Prop} {as : List α} {s : σ}
    (h : ∀ i, StepsMeet step (G i) as s) : StepsMeet step (fun s a => ∀ i, G i s a) as s := by
  induction as generalizing s with
  | nil => trivial
  | cons a as ih => exact ⟨fun i => (h i).1, ih fun i => (h i).2⟩

theorem StepsMeet.and {G G' : σ → α → Prop} {as : List α} {s : σ} (h : StepsMeet step G as s)
    (h' : StepsMeet step G' as s) : StepsMeet step (fun s a => G s a ∧ G' s a) as s := by
  induction as generalizing s with
  | nil => trivial
  | cons a as ih => exact ⟨⟨h.1, h'.1⟩, ih h.2 h'.2⟩

/-- Under an invariant that its guard keeps, a run also meets what the guard implies there. -/
theorem StepsMeet.imp (Inv : σ → Prop) {G G' : σ → α → Prop}
    (hkeep : ∀ s a, Inv s → G s a → Inv (step s a)) (himp : ∀ s a, Inv s → G s a → G' s a)
    {as : List α} {s : σ} (hs : Inv s) (h : StepsMeet step G as s) : StepsMeet step G' as s := by
  induction as generalizing s with
  | nil => trivial
  | cons a as ih => exact ⟨himp s a hs h.1, ih (hkeep s a hs h.1) h.2⟩

/-- Among runs whose actions are all allowed: when one of them from an invariant state restores
the property exactly if it meets the guard, a run has the property throughout exactly if all its
actions meet the guard. -/
theorem along_iff_stepsMeet_allowed (Inv : σ → Prop) {P : σ → Prop} {A G : σ → α → Prop}
    (hP : ∀ s, Inv s → P s)
    (hkeep : ∀ s a, Inv s → A s a → G s a → Inv (step s a))
    (hneed : ∀ s a, Inv s → A s a → P (step s a) → G s a)
    {as : List α} {s : σ} (hs : Inv s) (hA : StepsMeet step A as s) :
    Along step P as s ↔ StepsMeet step G as s := by
  induction as generalizing s with
  | nil => exact ⟨fun _ => trivial, fun _ => hP s hs⟩
  | cons a as ih =>
    constructor
    · rintro ⟨_, ht⟩
      have ha : G s a := hneed s a hs hA.1 ht.head
      exact ⟨ha, (ih (hkeep s a hs hA.1 ha) hA.2).mp ht⟩
    · rintro ⟨ha, ht⟩
      exact ⟨hP s hs, (ih (hkeep s a hs hA.1 ha) hA.2).mpr ht⟩

theorem along_iff_stepsMeet (Inv : σ → Prop) {P : σ → Prop} {G : σ → α → Prop}
    (hP : ∀ s, Inv s → P s)
    (hkeep : ∀ s a, Inv s → G s a → Inv (step s a))
    (hneed : ∀ s a, Inv s → P (step s a) → G s a)
    {as : List α} {s : σ} (hs : Inv s) : Along step P as s ↔ StepsMeet step G as s := by
  have hall : ∀ (as : List α) (s : σ), StepsMeet step (fun _ _ => True) as s := by
    intro as
    induction as with
    | nil => exact fun _ => trivial
    | cons a as ih => exact fun s => ⟨trivial, ih (step s a)⟩
  exact along_iff_stepsMeet_allowed step Inv hP (fun s a h _ => hkeep s a h)
    (fun s a h _ => hneed s a h) hs (hall as s)

/-- What each action keeps exactly if it meets the guard. -/
theorem run_iff_stepsMeet {P : σ → Prop} {G : σ → α → Prop}
    (hstep : ∀ s a, P (step s a) ↔ P s ∧ G s a) (as : List α) (s : σ) :
    P (run step as s) ↔ P s ∧ StepsMeet step G as s := by
  induction as generalizing s with
  | nil => exact ⟨fun h => ⟨h, trivial⟩, fun h => h.1⟩
  | cons a as ih =>
    change P (run step as (step s a)) ↔ P s ∧ G s a ∧ StepsMeet step G as (step s a)
    rw [ih, hstep, and_assoc]

instance decidableAlong (P : σ → Prop) [DecidablePred P] :
    (as : List α) → (s : σ) → Decidable (Along step P as s)
  | [], s => inferInstanceAs (Decidable (P s))
  | a :: as, s =>
    have := decidableAlong P as (step s a)
    inferInstanceAs (Decidable (P s ∧ Along step P as (step s a)))

instance decidableStepsMeet (G : σ → α → Prop) [∀ s a, Decidable (G s a)] :
    (as : List α) → (s : σ) → Decidable (StepsMeet step G as s)
  | [], _ => inferInstanceAs (Decidable True)
  | a :: as, s =>
    have := decidableStepsMeet G as (step s a)
    inferInstanceAs (Decidable (G s a ∧ StepsMeet step G as (step s a)))

end Machine
