import Mathlib.Algebra.BigOperators.Group.List.Basic
import Mathlib.Algebra.GroupWithZero.Nat
import Mathlib.Data.List.Flatten

/-! A list of threads, of which one at a time takes a step: what they hold together. -/
namespace Tally
variable {α β : Type*}

def total (f : α → Nat) (l : List α) : Nat := (l.map f).sum

@[simp] theorem total_append (f : α → Nat) (l m : List α) :
    total f (l ++ m) = total f l + total f m := by
  simp [total]

@[simp] theorem total_cons (f : α → Nat) (x : α) (l : List α) :
    total f (x :: l) = f x + total f l := by
  simp [total]

@[simp] theorem total_nil (f : α → Nat) : total f [] = 0 := rfl

/-- The thread that takes the step, and the ones before and after it. -/
theorem split_set {l : List α} {k : Nat} {x : α} (h : l[k]? = some x) :
    ∃ u v, l = u ++ x :: v ∧ ∀ y, l.set k y = u ++ y :: v := by
  obtain ⟨hk, rfl⟩ := List.getElem?_eq_some_iff.mp h
  refine ⟨l.take k, l.drop (k + 1), ?_, fun y => ?_⟩
  · rw [← List.drop_eq_getElem_cons hk, List.take_append_drop]
  · rw [List.set_eq_take_append_cons_drop, if_pos hk]

theorem total_set (f : α → Nat) {l : List α} {k : Nat} {x : α} (h : l[k]? = some x) (y : α) :
    total f (l.set k y) + f x = total f l + f y := by
  obtain ⟨u, v, rfl, hset⟩ := split_set h
  rw [hset]
  simp only [total_append, total_cons]
  omega

theorem le_total (f : α → Nat) {l : List α} {k : Nat} {x : α} (h : l[k]? = some x) :
    f x ≤ total f l := by
  obtain ⟨u, v, rfl, -⟩ := split_set h
  simp only [total_append, total_cons]
  omega

theorem total_eq_zero {f : α → Nat} {l : List α} (h : ∀ x ∈ l, f x = 0) : total f l = 0 := by
  apply List.sum_eq_zero
  intro n hn
  obtain ⟨x, hx, rfl⟩ := List.mem_map.mp hn
  exact h x hx

end Tally
