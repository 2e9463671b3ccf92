import AnonSecNet.Foundation.ReplayGuard
import Mathlib.Data.List.Chain

/-! A replay guard on streams that come in order but may have gaps: in each domain it accepts
everything up to the first gap that is too long, and nothing behind it. -/
namespace ReplayGuard
variable {δ : Type*} [DecidableEq δ] (p : Params δ)

/-- The counters of a domain, in the order of the stamps. -/
def ofDomain (d : δ) (xs : List (δ × Nat)) : List Nat :=
  (xs.filter fun x => decide (x.1 = d)).map Prod.snd

/-- The stamps that are accepted, in that order. -/
def passes : List (δ × Nat) → Guard δ → List (δ × Nat)
  | [], _ => []
  | x :: xs, g => (if g.Accepts p x then [x] else []) ++ passes xs (g.offer p x)

/-- The end of the window behind the highest counter matched. -/
def limit (d : δ) (mark : Option Nat) : Nat :=
  mark.elim (p.first d) (fun m => max (p.first d) (m + 1 - p.margin)) + p.size

/-- What is before the first gap that is too long. -/
def reach (d : δ) : Option Nat → List Nat → List Nat
  | _, [] => []
  | mark, c :: cs => if c < limit p d mark then c :: reach d (some c) cs else []

/-- In each domain the stamps rise, from above what was matched before. -/
structure InOrder (g : Guard δ) (xs : List (δ × Nat)) : Prop where
  sorted : ∀ d, (ofDomain d xs).Pairwise (· < ·)
  first : ∀ x ∈ xs, p.first x.1 ≤ x.2
  above : ∀ x ∈ xs, ∀ m, g.mark x.1 = some m → m < x.2

theorem ofDomain_append (d : δ) (xs ys : List (δ × Nat)) :
    ofDomain d (xs ++ ys) = ofDomain d xs ++ ofDomain d ys := by
  simp [ofDomain]

theorem ofDomain_cons_self (x : δ × Nat) (xs : List (δ × Nat)) :
    ofDomain x.1 (x :: xs) = x.2 :: ofDomain x.1 xs := by
  simp [ofDomain]

theorem ofDomain_cons_of_ne {d : δ} {x : δ × Nat} (h : x.1 ≠ d) (xs : List (δ × Nat)) :
    ofDomain d (x :: xs) = ofDomain d xs := by
  simp [ofDomain, h]

theorem mem_ofDomain {d : δ} {c : Nat} {xs : List (δ × Nat)} :
    c ∈ ofDomain d xs ↔ (d, c) ∈ xs := by
  constructor
  · intro h
    obtain ⟨x, hx, rfl⟩ := List.mem_map.mp h
    obtain ⟨hmem, hd⟩ := List.mem_filter.mp hx
    rwa [← of_decide_eq_true hd]
  · exact fun h => List.mem_map.mpr ⟨(d, c), List.mem_filter.mpr ⟨h, decide_eq_true rfl⟩, rfl⟩

variable {p}

theorem passes_sublist (xs : List (δ × Nat)) (g : Guard δ) : (passes p xs g).Sublist xs := by
  induction xs generalizing g with
  | nil => exact List.Sublist.refl _
  | cons x xs ih =>
    unfold passes
    split
    · exact (ih _).cons_cons x
    · exact (ih _).cons x

/-- On a stream in order only the end of the window counts. -/
theorem InOrder.accepts_iff {g : Guard δ} {x : δ × Nat} {xs : List (δ × Nat)}
    (h : InOrder p g (x :: xs)) (ok : Ok p g) :
    g.Accepts p x ↔ x.2 < limit p x.1 (g.mark x.1) := by
  have habove := h.above x List.mem_cons_self
  have hlow : g.base p x.1 ≤ x.2 := by
    have hfirst := h.first x List.mem_cons_self
    unfold Guard.base
    cases hm : g.mark x.1 with
    | none => exact hfirst
    | some m =>
      have := habove m hm
      rw [Option.elim_some]
      omega
  have hnew : x ∉ g.accepted.take p.cap := by
    intro hmem
    obtain ⟨m, hm, hle⟩ := ok.marked x (List.mem_of_mem_take hmem)
    have := habove m hm
    omega
  exact ⟨fun hx => hx.1.2, fun hx => ⟨⟨hlow, hx⟩, hnew⟩⟩

theorem InOrder.offer {g : Guard δ} {x : δ × Nat} {xs : List (δ × Nat)}
    (h : InOrder p g (x :: xs)) : InOrder p (g.offer p x) xs where
  sorted d := by
    have hsorted := h.sorted d
    by_cases hd : x.1 = d
    · subst hd
      rw [ofDomain_cons_self] at hsorted
      exact (List.pairwise_cons.mp hsorted).2
    · rwa [ofDomain_cons_of_ne hd] at hsorted
  first y hy := h.first y (List.mem_cons_of_mem x hy)
  above y hy m hm := by
    have hold := h.above y (List.mem_cons_of_mem x hy)
    simp only [Guard.offer] at hm
    split at hm
    · unfold Guard.raise at hm
      by_cases hd : y.1 = x.1
      · rw [hd, Function.update_self, Option.some.injEq] at hm
        have hlater : x.2 < y.2 := by
          have hsorted := h.sorted x.1
          rw [ofDomain_cons_self] at hsorted
          exact (List.pairwise_cons.mp hsorted).1 y.2 (mem_ofDomain.mpr (hd ▸ hy))
        cases hmark : g.mark x.1 with
        | none =>
          rw [hmark, Option.elim_none] at hm
          omega
        | some n =>
          have := hold n (hd ▸ hmark)
          rw [hmark, Option.elim_some] at hm
          omega
      · rw [Function.update_of_ne hd] at hm
        exact hold m hm
    · exact hold m hm

omit [DecidableEq δ] in
/-- Behind a gap that is too long everything is out of reach. -/
theorem reach_eq_nil {d : δ} {mark : Option Nat} {cs : List Nat}
    (h : ∀ c ∈ cs, limit p d mark ≤ c) : reach p d mark cs = [] := by
  cases cs with
  | nil => rfl
  | cons c cs => exact if_neg (not_lt.mpr (h c List.mem_cons_self))

theorem ofDomain_passes {xs : List (δ × Nat)} {g : Guard δ} (h : InOrder p g xs) (ok : Ok p g)
    (d : δ) : ofDomain d (passes p xs g) = reach p d (g.mark d) (ofDomain d xs) := by
  induction xs generalizing g with
  | nil => rfl
  | cons x xs ih =>
    have hrest := ih h.offer (ok.offer x)
    have haccepts := h.accepts_iff ok
    unfold passes
    rw [ofDomain_append, hrest]
    by_cases hd : x.1 = d
    · subst hd
      rw [ofDomain_cons_self]
      by_cases hx : g.Accepts p x
      · have hmark : (g.offer p x).mark x.1 = some x.2 := by
          simp only [Guard.offer, if_pos hx.1, Guard.raise, Function.update_self]
          cases hm : g.mark x.1 with
          | none => rfl
          | some m =>
            rw [Option.elim_some, max_eq_left (h.above x List.mem_cons_self m hm).le]
        rw [if_pos hx, hmark, ofDomain_cons_self, reach, if_pos (haccepts.mp hx)]
        rfl
      · have hfar : limit p x.1 (g.mark x.1) ≤ x.2 := not_lt.mp fun hlt => hx (haccepts.mpr hlt)
        have hmark : (g.offer p x).mark = g.mark := by
          have hin : ¬ g.InWindow p x := fun hin => absurd hin.2 (not_lt.mpr hfar)
          simp only [Guard.offer, if_neg hin]
        have hsorted := h.sorted x.1
        rw [ofDomain_cons_self] at hsorted
        have hlater : ∀ c ∈ ofDomain x.1 xs, limit p x.1 (g.mark x.1) ≤ c := fun c hc =>
          hfar.trans ((List.pairwise_cons.mp hsorted).1 c hc).le
        rw [if_neg hx, hmark, reach_eq_nil hlater, reach, if_neg (not_lt.mpr hfar)]
        rfl
    · have hmark : (g.offer p x).mark d = g.mark d := by
        simp only [Guard.offer]
        split
        · exact Function.update_of_ne (Ne.symm hd) _ _
        · rfl
      have hnone : ofDomain d (if g.Accepts p x then [x] else []) = [] := by
        split
        · rw [ofDomain_cons_of_ne hd]
          rfl
        · rfl
      rw [hnone, hmark, ofDomain_cons_of_ne hd]
      rfl

/-! How far a stream reaches. -/

omit [DecidableEq δ] in
theorem reach_prefix (d : δ) (mark : Option Nat) (cs : List Nat) : reach p d mark cs <+: cs := by
  induction cs generalizing mark with
  | nil => exact List.prefix_refl _
  | cons c cs ih =>
    unfold reach
    split
    · exact List.cons_prefix_cons.mpr ⟨rfl, ih (some c)⟩
    · exact List.nil_prefix

omit [DecidableEq δ] in
theorem reach_eq_self_iff (d : δ) (mark : Option Nat) (cs : List Nat) :
    reach p d mark cs = cs ↔ (∀ c ∈ cs.head?, c < limit p d mark) ∧
      cs.IsChain fun a b => b < limit p d (some a) := by
  induction cs generalizing mark with
  | nil => simp [reach]
  | cons c cs ih =>
    unfold reach
    by_cases hc : c < limit p d mark
    · rw [if_pos hc, List.cons.injEq, ih (some c)]
      cases cs with
      | nil => simp [hc]
      | cons b cs => simp [hc]
    · rw [if_neg hc]
      simp [hc]

omit [DecidableEq δ] in
/-- What is accepted is the longest initial part that has no gap too long. -/
theorem prefix_reach_iff {d : δ} {mark : Option Nat} {cs ys : List Nat} (h : ys <+: cs) :
    ys <+: reach p d mark cs ↔ reach p d mark ys = ys := by
  induction ys generalizing cs mark with
  | nil => exact iff_of_true List.nil_prefix rfl
  | cons c ys ih =>
    obtain ⟨rest, rfl⟩ := h
    rw [List.cons_append]
    unfold reach
    by_cases hc : c < limit p d mark
    · rw [if_pos hc, if_pos hc, List.cons_prefix_cons, List.cons.injEq,
        ih (List.prefix_append ys rest)]
    · rw [if_neg hc, if_neg hc]
      simp

/-- Nothing is missing if nothing is missing of any domain. -/
theorem eq_of_ofDomain {xs ys : List (δ × Nat)} (h : xs.Sublist ys)
    (heq : ∀ d, ofDomain d xs = ofDomain d ys) : xs = ys := by
  induction h with
  | slnil => rfl
  | @cons xs ys y hsub ih =>
    have hown := congrArg List.length (heq y.1)
    rw [ofDomain_cons_self, List.length_cons] at hown
    have hle := ((hsub.filter fun x => decide (x.1 = y.1)).map Prod.snd).length_le
    change (ofDomain y.1 xs).length ≤ (ofDomain y.1 ys).length at hle
    omega
  | @cons_cons xs ys y hsub ih =>
    refine congrArg (y :: ·) (ih fun d => ?_)
    have hd := heq d
    by_cases hy : y.1 = d
    · subst hy
      rw [ofDomain_cons_self, ofDomain_cons_self, List.cons.injEq] at hd
      exact hd.2
    · rwa [ofDomain_cons_of_ne hy, ofDomain_cons_of_ne hy] at hd

end ReplayGuard
