import Mathlib.Data.List.TakeWhile
import Mathlib.Data.List.Perm.Basic

/-! A sorted list splits where a property that is handed down along the order ends: the front
and the rest are the elements with and without it. -/
namespace AnonSecNet.SortedSplit
variable {α : Type*} {R : α → α → Prop} {p : α → Bool} {l : List α}

theorem dropWhile_eq_filter (hp : ∀ s t, R s t → p t = true → p s = true) (hl : l.Pairwise R) :
    l.dropWhile p = l.filter fun t => !p t := by
  induction l with
  | nil => rfl
  | cons t l ih =>
    obtain ⟨hle, hl⟩ := List.pairwise_cons.mp hl
    by_cases ht : p t = true
    · rw [List.dropWhile_cons_of_pos ht, ih hl]
      simp [ht]
    · have hrest : ∀ u ∈ l, ¬ p u = true := fun u hu h => ht (hp t u (hle u hu) h)
      rw [List.dropWhile_cons_of_neg ht]
      symm
      rw [List.filter_eq_self]
      intro u hu
      rcases List.mem_cons.mp hu with rfl | hu
      · simpa using ht
      · simpa using hrest u hu

theorem takeWhile_eq_filter (hp : ∀ s t, R s t → p t = true → p s = true) (hl : l.Pairwise R) :
    l.takeWhile p = l.filter p := by
  have hdrop := dropWhile_eq_filter hp hl
  have hsplit := List.takeWhile_append_dropWhile (p := p) (l := l)
  have hfront : (l.takeWhile p).filter p = l.takeWhile p :=
    List.filter_eq_self.mpr fun t ht => List.mem_takeWhile_imp ht
  have hback : (l.dropWhile p).filter p = [] := by
    rw [hdrop, List.filter_filter]
    simp
  calc l.takeWhile p = (l.takeWhile p).filter p ++ (l.dropWhile p).filter p := by
        rw [hfront, hback, List.append_nil]
    _ = l.filter p := by rw [← List.filter_append, hsplit]

/-- The two parts of a list that is sorted, up to their order. -/
theorem split_perm {front back : List α} (hp : ∀ s t, R s t → p t = true → p s = true)
    (hl : l.Pairwise R) (hperm : l.Perm (front ++ back)) (hfront : ∀ t ∈ front, p t = true)
    (hback : ∀ t ∈ back, p t = false) :
    (l.takeWhile p).Perm front ∧ (l.dropWhile p).Perm back := by
  rw [takeWhile_eq_filter hp hl, dropWhile_eq_filter hp hl]
  have hin := hperm.filter p
  have hout := hperm.filter fun t => !p t
  have hnoBack : back.filter p = [] := List.filter_eq_nil_iff.mpr fun t ht => by simp [hback t ht]
  have hnoFront : front.filter (fun t => !p t) = [] :=
    List.filter_eq_nil_iff.mpr fun t ht => by simp [hfront t ht]
  have hallBack : back.filter (fun t => !p t) = back :=
    List.filter_eq_self.mpr fun t ht => by simp [hback t ht]
  rw [List.filter_append, List.filter_eq_self.mpr hfront, hnoBack, List.append_nil] at hin
  rw [List.filter_append, hnoFront, hallBack, List.nil_append] at hout
  exact ⟨hin, hout⟩

end AnonSecNet.SortedSplit
