import Mathlib.Data.List.Nodup
import Mathlib.Data.List.Infix
import Mathlib.Logic.Function.Basic

/-! A parcel that goes over stations one behind the other. A station hands on what it makes of the
parcel or keeps it back, and the network may lose it on any stretch. -/
namespace Courier

inductive Fate (α : Type*) where
  | through (a : α)
  | lost
  | replayed
  | refused
deriving DecidableEq

section
variable {ι : Type*} [DecidableEq ι] {σ : ι → Type*} {α : Type*}
  (handle : ∀ i, σ i → α → Fate α × σ i)

/-- The network carries the parcel over `reach` stretches: one to each station, and one behind the
last of them. -/
def carry : Nat → List ι → (∀ i, σ i) → α → Fate α × ∀ i, σ i
  | 0, _, s, _ => (.lost, s)
  | _ + 1, [], s, a => (.through a, s)
  | reach + 1, i :: is, s, a =>
    match handle i (s i) a with
    | (.through b, t) => carry reach is (Function.update s i t) b
    | (fate, t) => (fate, Function.update s i t)

/-- Station `i` hands a parcel that fits on as one that fits the stations behind it. -/
def Passes (Fit : List ι → α → Prop) (After : ∀ i, σ i → Prop) (s : ∀ i, σ i) (i : ι)
    (rest : List ι) : Prop :=
  ∀ a, Fit (i :: rest) a → ∃ b t, handle i (s i) a = (.through b, t) ∧ Fit rest b ∧ After i t

variable {handle} {Fit : List ι → α → Prop} {After : ∀ i, σ i → Prop} {s : ∀ i, σ i}

theorem Passes.update {i j : ι} {rest : List ι} (h : Passes handle Fit After s i rest)
    (hij : i ≠ j) (t : σ j) : Passes handle Fit After (Function.update s j t) i rest := by
  intro a ha
  rw [Function.update_of_ne hij]
  exact h a ha

/-- Where all stations pass it on, only the network stops a parcel. The stations it met are in
their new state, the others in the old one. -/
theorem carry_through {is : List ι} (hnodup : is.Nodup)
    (hpass : ∀ i rest, i :: rest <:+ is → Passes handle Fit After s i rest) (reach : Nat) {a : α}
    (ha : Fit is a) :
    ∃ fate s', carry handle reach is s a = (fate, s') ∧
      (reach ≤ is.length → fate = .lost) ∧
      (is.length < reach → ∃ b, fate = .through b ∧ Fit [] b) ∧
      (∀ i ∈ is.take reach, After i (s' i)) ∧ ∀ i, i ∉ is.take reach → s' i = s i := by
  induction is generalizing reach s a with
  | nil =>
    cases reach with
    | zero => exact ⟨_, _, rfl, fun _ => rfl, by simp, by simp, fun _ _ => rfl⟩
    | succ reach =>
      exact ⟨_, _, rfl, by simp, fun _ => ⟨a, rfl, ha⟩, by simp, fun _ _ => rfl⟩
  | cons i is ih =>
    cases reach with
    | zero => exact ⟨_, _, rfl, fun _ => rfl, by simp, by simp, fun _ _ => rfl⟩
    | succ reach =>
      obtain ⟨hi, hnodup⟩ := List.nodup_cons.mp hnodup
      obtain ⟨b, t, hhandle, hb, hafter⟩ := hpass i is List.suffix_rfl a ha
      have htail : ∀ k rest, k :: rest <:+ is →
          Passes handle Fit After (Function.update s i t) k rest := by
        intro k rest hsuffix
        have hk : k ≠ i := fun heq => hi (heq ▸ hsuffix.subset List.mem_cons_self)
        exact (hpass k rest (hsuffix.trans (List.suffix_cons i is))).update hk t
      obtain ⟨fate, s', hcarry, hlost, harrived, hmet, hrest⟩ := ih hnodup htail reach hb
      refine ⟨fate, s', ?_, ?_, ?_, ?_, ?_⟩
      · simp only [carry, hhandle]
        exact hcarry
      · exact fun h => hlost (by simpa using h)
      · exact fun h => harrived (by simpa using h)
      · intro k hk
        by_cases hki : k = i
        · subst hki
          rw [hrest k fun hmem => hi (List.mem_of_mem_take hmem), Function.update_self]
          exact hafter
        · rw [List.take_succ_cons, List.mem_cons] at hk
          exact hmet k (hk.resolve_left hki)
      · intro k hk
        rw [List.take_succ_cons, List.mem_cons, not_or] at hk
        rw [hrest k hk.2, Function.update_of_ne hk.1]

/-- A parcel that gets to a station which keeps it back. -/
theorem carry_stopped {before rest : List ι} {j : ι} (hnodup : (before ++ j :: rest).Nodup)
    (hpass : ∀ i u, i :: u <:+ before → Passes handle Fit After s i (u ++ j :: rest))
    {fate : Fate α} (hfate : ∀ b, fate ≠ .through b)
    (hstop : ∀ a, Fit (j :: rest) a → (handle j (s j) a).1 = fate) {reach : Nat}
    (hreach : before.length < reach) {a : α} (ha : Fit (before ++ j :: rest) a) :
    (carry handle reach (before ++ j :: rest) s a).1 = fate := by
  induction before generalizing reach s a with
  | nil =>
    obtain ⟨reach, rfl⟩ := Nat.exists_eq_succ_of_ne_zero (Nat.ne_of_gt hreach)
    have hj := hstop a ha
    rcases hhandle : handle j (s j) a with ⟨f, t⟩
    rw [hhandle] at hj
    obtain rfl : f = fate := hj
    simp only [List.nil_append, carry, hhandle]
  | cons i before ih =>
    obtain ⟨reach, rfl⟩ := Nat.exists_eq_succ_of_ne_zero (Nat.ne_of_gt (Nat.zero_lt_of_lt hreach))
    obtain ⟨hi, hnodup⟩ := List.nodup_cons.mp hnodup
    obtain ⟨b, t, hhandle, hb, -⟩ := hpass i before List.suffix_rfl a ha
    simp only [List.cons_append, carry, hhandle]
    refine ih hnodup ?_ ?_ (by simpa using hreach) hb
    · intro k u hsuffix
      have hk : k ≠ i := fun heq =>
        hi (heq ▸ List.mem_append_left _ (hsuffix.subset List.mem_cons_self))
      exact (hpass k u (hsuffix.trans (List.suffix_cons i before))).update hk t
    · intro c hc
      have hj : j ≠ i := fun heq => hi (heq ▸ List.mem_append_right _ List.mem_cons_self)
      rw [Function.update_of_ne hj]
      exact hstop c hc

end

end Courier
