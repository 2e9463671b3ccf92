import Mathlib.Algebra.GroupWithZero.Nat
import Mathlib.Algebra.Order.BigOperators.Group.List
import Mathlib.Algebra.Order.Group.Nat
import Mathlib.Data.List.Infix

/-! Packing a list into bounded room: items are taken in order until the next one does not
fit. -/
namespace Packing
variable {α : Type*} (size : α → Nat)

def total (as : List α) : Nat := (as.map size).sum

@[simp] theorem total_nil : total size [] = 0 := rfl

@[simp] theorem total_cons (a : α) (as : List α) :
    total size (a :: as) = size a + total size as := by
  simp [total]

theorem total_sublist {u as : List α} (h : u.Sublist as) : total size u ≤ total size as :=
  (h.map size).sum_le_sum fun _ _ => Nat.zero_le _

def packed : Nat → List α → List α
  | _, [] => []
  | room, a :: as => if size a ≤ room then a :: packed (room - size a) as else []

theorem packed_isPrefix (room : Nat) (as : List α) : packed size room as <+: as := by
  induction as generalizing room with
  | nil => exact List.prefix_refl []
  | cons a as ih =>
    unfold packed
    split
    · exact List.cons_prefix_cons.mpr ⟨rfl, ih _⟩
    · exact List.nil_prefix

theorem total_packed_le (room : Nat) (as : List α) : total size (packed size room as) ≤ room := by
  induction as generalizing room with
  | nil => exact Nat.zero_le room
  | cons a as ih =>
    unfold packed
    split
    · rename_i hfit
      have hrest := ih (room - size a)
      rw [total_cons]
      omega
    · exact Nat.zero_le room

/-- No prefix that fits is longer. -/
theorem prefix_packed {room : Nat} {u as : List α} (h : u <+: as) (hfit : total size u ≤ room) :
    u <+: packed size room as := by
  induction as generalizing room u with
  | nil => exact h
  | cons a as ih =>
    cases u with
    | nil => exact List.nil_prefix
    | cons b u =>
      obtain ⟨rfl, hu⟩ := List.cons_prefix_cons.mp h
      rw [total_cons] at hfit
      unfold packed
      rw [if_pos (by omega)]
      exact List.cons_prefix_cons.mpr ⟨rfl, ih hu (by omega)⟩

/-- What is packed stays below a smaller bound exactly if no prefix ends between the two. -/
theorem total_packed_le_iff (room bound : Nat) (as : List α) :
    total size (packed size room as) ≤ bound ↔
      ∀ u, u <+: as → total size u ≤ room → total size u ≤ bound := by
  constructor
  · intro h u hu hfit
    exact (total_sublist size (prefix_packed size hu hfit).sublist).trans h
  · intro h
    exact h _ (packed_isPrefix size room as) (total_packed_le size room as)

theorem packed_map {β : Type*} (f : β → α) (room : Nat) (bs : List β) :
    packed size room (bs.map f) = (packed (fun b => size (f b)) room bs).map f := by
  induction bs generalizing room with
  | nil => rfl
  | cons b bs ih =>
    rw [List.map_cons]
    unfold packed
    split
    · rw [ih, List.map_cons]
    · rfl

theorem total_filter_add_le {p : α → Bool} {a : α} {as : List α} (ha : a ∈ as)
    (hp : p a = false) : total size (as.filter p) + size a ≤ total size as := by
  obtain ⟨u, v, rfl⟩ := List.append_of_mem ha
  have hu := total_sublist size (List.filter_sublist (p := p) (l := u))
  have hv := total_sublist size (List.filter_sublist (p := p) (l := v))
  simp only [total, List.filter_append, List.filter_cons, hp, List.map_append, List.map_cons,
    List.sum_append, List.sum_cons] at hu hv ⊢
  simp
  omega

theorem iterate_sublist {f : List α → List α} (hf : ∀ as, (f as).Sublist as) (n : Nat) :
    (f^[n] as).Sublist as := by
  induction n with
  | zero => exact List.Sublist.refl as
  | succ n ih =>
    rw [Function.iterate_succ_apply']
    exact (hf _).trans ih

/-! Packing again and again: after each round the marked items that were packed are gone. -/

section
variable [LinearOrder α] (mine : α → Bool)

/-- What never goes away before `a`. -/
def ahead (as : List α) (a : α) : List α := as.filter fun b => decide (b < a) && !mine b

def leftOver (room : Nat) (as : List α) : List α :=
  as.filter fun a => !(mine a && (packed size room as).contains a)

variable {mine} {room : Nat} {as : List α} {a : α}

theorem ahead_leftOver (a : α) :
    ahead mine (leftOver size mine room as) a = ahead mine as a := by
  unfold ahead leftOver
  rw [List.filter_filter]
  congr 1
  funext b
  cases mine b <;> simp

/-- Only an item that fits behind what never goes away is packed. -/
theorem fits_of_packed (hsorted : as.Pairwise (· < ·)) (ha : a ∈ packed size room as) :
    total size (ahead mine as a) + size a ≤ room := by
  obtain ⟨rest, hrest⟩ := packed_isPrefix size room as
  have hahead : ahead mine as a = ahead mine (packed size room as) a := by
    have hlater : rest.filter (fun b => decide (b < a) && !mine b) = [] := by
      rw [List.filter_eq_nil_iff]
      intro b hb
      rw [← hrest] at hsorted
      have := (List.pairwise_append.mp hsorted).2.2 a ha b hb
      simp [this.not_gt]
    unfold ahead
    conv_lhs => rw [← hrest, List.filter_append, hlater, List.append_nil]
  rw [hahead]
  exact (total_filter_add_le size ha (by simp)).trans (total_packed_le size room as)

/-- The first marked item is packed if it fits behind what never goes away. -/
theorem exists_packed (hsorted : as.Pairwise (· < ·))
    (hfits : ∀ a ∈ as, mine a = true → total size (ahead mine as a) + size a ≤ room)
    (hmine : ∃ a ∈ as, mine a = true) : ∃ a ∈ packed size room as, mine a = true := by
  have hsome : (as.find? mine).isSome := List.find?_isSome.mpr hmine
  obtain ⟨a, hfind⟩ := Option.isSome_iff_exists.mp hsome
  obtain ⟨ha, u, v, hsplit, hu⟩ := List.find?_eq_some_iff_append.mp hfind
  have hfit := hfits a (hsplit ▸ by simp) ha
  have hahead : total size u ≤ total size (ahead mine as a) := by
    have hbefore : u.filter (fun b => decide (b < a) && !mine b) = u := by
      rw [List.filter_eq_self]
      intro b hb
      rw [hsplit] at hsorted
      have hlt := (List.pairwise_append.mp hsorted).2.2 b hb a List.mem_cons_self
      have := hu b hb
      simp [hlt] at this ⊢
      exact this
    unfold ahead
    rw [hsplit, List.filter_append, hbefore]
    simp [total]
  have hpre : u ++ [a] <+: as := ⟨v, by simp [hsplit]⟩
  have htotal : total size (u ++ [a]) ≤ room := by
    have : total size (u ++ [a]) = total size u + size a := by simp [total]
    omega
  exact ⟨a, (prefix_packed size hpre htotal).subset (by simp), ha⟩

theorem leftOver_sublist (as : List α) : (leftOver size mine room as).Sublist as :=
  List.filter_sublist

/-- A round that packs no more than `cap`, or no round at all. -/
def pass (mine : α → Bool) (room cap : Nat) (as : List α) : List α :=
  if total size (packed size room as) ≤ cap then leftOver size mine room as else as

variable {cap : Nat}

theorem pass_sublist (as : List α) : (pass size mine room cap as).Sublist as := by
  unfold pass
  split
  · exact leftOver_sublist size as
  · exact List.Sublist.refl as

theorem ahead_pass (a : α) : ahead mine (pass size mine room cap as) a = ahead mine as a := by
  unfold pass
  split
  · exact ahead_leftOver size a
  · rfl

theorem ahead_rounds (n : Nat) (a : α) :
    ahead mine ((leftOver size mine room)^[n] as) a = ahead mine as a := by
  induction n with
  | zero => rfl
  | succ n ih => rw [Function.iterate_succ_apply', ahead_leftOver, ih]

/-- While a marked item is left, a round takes one, or the marked items do not fit. -/
theorem length_leftOver_lt (hsorted : as.Pairwise (· < ·))
    (hfits : ∀ a ∈ as, mine a = true → total size (ahead mine as a) + size a ≤ room)
    (hmine : ∃ a ∈ as, mine a = true) : (leftOver size mine room as).length < as.length := by
  obtain ⟨a, ha, hown⟩ := exists_packed size hsorted hfits hmine
  have hmem : a ∈ as := (packed_isPrefix size room as).subset ha
  refine List.length_filter_lt_length_iff_exists.mpr ⟨a, hmem, ?_⟩
  simp [hown, ha]

/-- The marked items all go if each fits behind what never goes away, and no round that is still
needed packs more than `cap`. -/
theorem pass_clears (hsorted : as.Pairwise (· < ·))
    (hfits : ∀ a ∈ as, mine a = true → total size (ahead mine as a) + size a ≤ room)
    (hcap : ∀ n, (∃ a ∈ (leftOver size mine room)^[n] as, mine a = true) →
      total size (packed size room ((leftOver size mine room)^[n] as)) ≤ cap)
    {m : Nat} (hm : as.length ≤ m) :
    ∀ a ∈ (pass size mine room cap)^[m] as, mine a = false := by
  have hprogress : ∀ m, (∀ a ∈ (pass size mine room cap)^[m] as, mine a = false) ∨
      ((pass size mine room cap)^[m] as = (leftOver size mine room)^[m] as ∧
        ((leftOver size mine room)^[m] as).length + m ≤ as.length) := by
    intro m
    induction m with
    | zero => exact .inr ⟨rfl, Nat.le_refl _⟩
    | succ m ih =>
      rw [Function.iterate_succ_apply', Function.iterate_succ_apply']
      rcases ih with hclear | ⟨hsame, hlen⟩
      · exact .inl fun a ha => hclear a ((pass_sublist size _).subset ha)
      · rw [hsame]
        have hsub : ((leftOver size mine room)^[m] as).Sublist as :=
          iterate_sublist (leftOver_sublist size) m
        by_cases hleft : ∃ a ∈ (leftOver size mine room)^[m] as, mine a = true
        · have hfits' : ∀ a ∈ (leftOver size mine room)^[m] as, mine a = true →
              total size (ahead mine ((leftOver size mine room)^[m] as) a) + size a ≤ room := by
            intro a ha hown
            rw [ahead_rounds]
            exact hfits a (hsub.subset ha) hown
          have hlt := length_leftOver_lt size (hsorted.sublist hsub) hfits' hleft
          refine .inr ⟨?_, by omega⟩
          unfold pass
          rw [if_pos (hcap m hleft)]
        · refine .inl fun a ha => ?_
          rw [← Bool.not_eq_true]
          exact fun hown => hleft ⟨a, (pass_sublist size _).subset ha, hown⟩
  intro a ha
  rcases hprogress m with hclear | ⟨hsame, hlen⟩
  · exact hclear a ha
  · have hempty : (leftOver size mine room)^[m] as = [] := List.length_eq_zero_iff.mp (by omega)
    rw [hsame, hempty] at ha
    cases ha

theorem fits_of_pass (hsorted : as.Pairwise (· < ·)) {m : Nat}
    (hclear : ∀ a ∈ (pass size mine room cap)^[m] as, mine a = false) :
    ∀ a ∈ as, mine a = true → total size (ahead mine as a) + size a ≤ room := by
  intro a ha hown
  induction m generalizing as with
  | zero => exact Bool.noConfusion ((hclear a ha).symm.trans hown)
  | succ m ih =>
    by_cases hleft : a ∈ pass size mine room cap as
    · have hahead : ahead mine (pass size mine room cap as) a = ahead mine as a :=
        ahead_pass size a
      rw [← hahead]
      exact ih (hsorted.sublist (pass_sublist size as)) hclear hleft
    · have hpacked : a ∈ packed size room as := by
        by_contra hnot
        apply hleft
        unfold pass
        split
        · exact List.mem_filter.mpr ⟨ha, by simp [hnot]⟩
        · exact ha
      exact fits_of_packed size hsorted hpacked

theorem cap_of_pass {m : Nat} (hclear : ∀ a ∈ (pass size mine room cap)^[m] as, mine a = false)
    (n : Nat) (hleft : ∃ a ∈ (leftOver size mine room)^[n] as, mine a = true) :
    total size (packed size room ((leftOver size mine room)^[n] as)) ≤ cap := by
  by_contra hover
  -- the passes never get beyond the round that packs too much
  have hstuck : ∀ m, ∃ k ≤ n, (pass size mine room cap)^[m] as
      = (leftOver size mine room)^[k] as := by
    intro m
    induction m with
    | zero => exact ⟨0, Nat.zero_le n, rfl⟩
    | succ m ih =>
      obtain ⟨k, hk, hsame⟩ := ih
      rw [Function.iterate_succ_apply', hsame]
      unfold pass
      split
      · rename_i hfit
        have hkn : k ≠ n := by
          rintro rfl
          exact hover hfit
        exact ⟨k + 1, by omega, (Function.iterate_succ_apply' ..).symm⟩
      · exact ⟨k, hk, rfl⟩
  obtain ⟨k, hk, hsame⟩ := hstuck m
  obtain ⟨a, ha, hown⟩ := hleft
  have hmem : a ∈ (leftOver size mine room)^[k] as := by
    obtain ⟨j, rfl⟩ := Nat.exists_eq_add_of_le' hk
    rw [Function.iterate_add_apply] at ha
    exact (iterate_sublist (leftOver_sublist size) j).subset ha
  rw [← hsame] at hmem
  exact Bool.noConfusion ((hclear a hmem).symm.trans hown)

end

end Packing
