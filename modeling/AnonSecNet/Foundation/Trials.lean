import Mathlib.Algebra.Order.Ring.Defs
import Mathlib.Data.Nat.Cast.Order.Ring
import Mathlib.Tactic.GCongr
import Mathlib.Tactic.Ring

/-! Independent draws that are true with one probability, and what is expected of a walk that
reads them until it stops. -/
namespace Trials

section Expectation
variable {R : Type*} [CommRing R]

/-- What `f` is expected to be on the next `n` draws. -/
def expect (p : R) : Nat → (List Bool → R) → R
  | 0, f => f []
  | n + 1, f =>
    p * expect p n (fun bs => f (true :: bs)) + (1 - p) * expect p n (fun bs => f (false :: bs))

theorem expect_const (p : R) (n : Nat) (c : R) : expect p n (fun _ => c) = c := by
  induction n with
  | zero => rfl
  | succ n ih =>
    rw [expect, ih]
    ring

theorem expect_add (p : R) (n : Nat) (f g : List Bool → R) :
    expect p n (fun bs => f bs + g bs) = expect p n f + expect p n g := by
  induction n generalizing f g with
  | zero => rfl
  | succ n ih =>
    simp only [expect, ih]
    ring

theorem expect_mul_left (p : R) (n : Nat) (c : R) (f : List Bool → R) :
    expect p n (fun bs => c * f bs) = c * expect p n f := by
  induction n generalizing f with
  | zero => rfl
  | succ n ih =>
    simp only [expect, ih]
    ring

end Expectation

section Order
variable {R : Type*} [CommRing R] [PartialOrder R] [IsOrderedRing R] {p : R}

theorem expect_mono (hp : 0 ≤ p) (hp1 : p ≤ 1) {n : Nat} {f g : List Bool → R}
    (h : ∀ bs, bs.length = n → f bs ≤ g bs) : expect p n f ≤ expect p n g := by
  induction n generalizing f g with
  | zero => exact h [] rfl
  | succ n ih =>
    have hcons (b : Bool) : expect p n (fun bs => f (b :: bs)) ≤ expect p n fun bs => g (b :: bs) :=
      ih fun bs hbs => h (b :: bs) (by rw [List.length_cons, hbs])
    exact add_le_add (mul_le_mul_of_nonneg_left (hcons true) hp)
      (mul_le_mul_of_nonneg_left (hcons false) (sub_nonneg.mpr hp1))

end Order

section Chance
variable {R : Type*} [CommRing R] (p : R) (n : Nat)

def chance (event : List Bool → Prop) [DecidablePred event] : R :=
  expect p n fun bs => if event bs then 1 else 0

variable [PartialOrder R] [IsOrderedRing R] {p n} {event event' : List Bool → Prop}
  [DecidablePred event] [DecidablePred event']

theorem chance_le_one (hp : 0 ≤ p) (hp1 : p ≤ 1) : chance p n event ≤ 1 := by
  rw [← expect_const p n 1]
  apply expect_mono hp hp1
  intro bs _
  split
  · exact le_rfl
  · exact zero_le_one

theorem chance_mono (hp : 0 ≤ p) (hp1 : p ≤ 1) (h : ∀ bs, bs.length = n → event bs → event' bs) :
    chance p n event ≤ chance p n event' := by
  apply expect_mono hp hp1
  intro bs hbs
  split
  · rename_i hevent
    rw [if_pos (h bs hbs hevent)]
  · split
    · exact zero_le_one
    · exact le_rfl

/-- Two events that exclude each other. -/
theorem chance_add_le_one (hp : 0 ≤ p) (hp1 : p ≤ 1)
    (h : ∀ bs, bs.length = n → event bs → ¬ event' bs) :
    chance p n event + chance p n event' ≤ 1 := by
  unfold chance
  rw [← expect_add]
  calc
    _ ≤ expect p n (fun _ => 1) := by
      apply expect_mono hp hp1
      intro bs hbs
      by_cases hevent : event bs
      · rw [if_pos hevent, if_neg (h bs hbs hevent), add_zero]
      · rw [if_neg hevent, zero_add]
        split
        · exact le_rfl
        · exact zero_le_one
    _ = 1 := expect_const p n 1

theorem chance_or_le (hp : 0 ≤ p) (hp1 : p ≤ 1) :
    chance p n (fun bs => event bs ∨ event' bs) ≤ chance p n event + chance p n event' := by
  unfold chance
  rw [← expect_add]
  apply expect_mono hp hp1
  intro bs _
  by_cases hevent : event bs <;> by_cases hevent' : event' bs <;> simp [hevent, hevent']

/-- What is at least `c` when the event happens, and never negative. -/
theorem mul_chance_le (hp : 0 ≤ p) (hp1 : p ≤ 1) {c : R} {f : List Bool → R}
    (hf : ∀ bs, bs.length = n → 0 ≤ f bs) (h : ∀ bs, bs.length = n → event bs → c ≤ f bs) :
    c * chance p n event ≤ expect p n f := by
  unfold chance
  rw [← expect_mul_left]
  apply expect_mono hp hp1
  intro bs hbs
  split
  · rename_i hevent
    rw [mul_one]
    exact h bs hbs hevent
  · rw [mul_zero]
    exact hf bs hbs

end Chance

/-! A walk that stops. -/
section Stopped
variable {σ : Type*} (next : σ → Bool → σ) (done : σ → Prop) [DecidablePred done]

def stopped : σ → List Bool → σ
  | s, [] => s
  | s, b :: bs => if done s then s else stopped (next s b) bs

variable {next done}

theorem stopped_of_done {s : σ} (h : done s) (bs : List Bool) : stopped next done s bs = s := by
  cases bs with
  | nil => rfl
  | cons b bs => exact if_pos h

/-- What a step keeps until the walk stops holds where it stops. -/
theorem stopped_invariant (inv : σ → Prop)
    (hnext : ∀ s b, ¬ done s → inv s → inv (next s b)) (bs : List Bool) {s : σ} (h : inv s) :
    inv (stopped next done s bs) := by
  induction bs generalizing s with
  | nil => exact h
  | cons b bs ih =>
    rw [stopped]
    split
    · exact h
    · rename_i hdone
      exact ih (hnext s b hdone h)

variable {R : Type*} [CommRing R] {p q : R}

/-- What a step is expected to leave as it is, is the same where the walk stops. -/
theorem expect_stopped (V : σ → R)
    (hV : ∀ s, ¬ done s → p * V (next s true) + (1 - p) * V (next s false) = V s) (n : Nat)
    (s : σ) :
    expect p n (fun bs => V (stopped next done s bs)) = V s := by
  induction n generalizing s with
  | zero => rfl
  | succ n ih =>
    by_cases hdone : done s
    · simp only [stopped_of_done hdone]
      exact expect_const p (n + 1) (V s)
    · simp only [expect, stopped, if_neg hdone, ih]
      exact hV s hdone

/-- Draws of another probability: `W` collects the ratios of the two. -/
theorem expect_stopped_ratio (W F : σ → R)
    (htrue : ∀ s, ¬ done s → p * W (next s true) = q * W s)
    (hfalse : ∀ s, ¬ done s → (1 - p) * W (next s false) = (1 - q) * W s) (n : Nat) (s : σ) :
    expect p n (fun bs => W (stopped next done s bs) * F (stopped next done s bs)) =
      W s * expect q n fun bs => F (stopped next done s bs) := by
  induction n generalizing s with
  | zero => rfl
  | succ n ih =>
    by_cases hdone : done s
    · simp only [stopped_of_done hdone, expect_const]
    · simp only [expect, stopped, if_neg hdone, ih]
      rw [← mul_assoc, ← mul_assoc, htrue s hdone, hfalse s hdone]
      ring

end Stopped

/-! Several walks, each with draws of its own. -/
section Several
variable {R : Type*} [CommRing R] (p : R) (n : Nat)

def expectRuns : Nat → (List (List Bool) → R) → R
  | 0, f => f []
  | k + 1, f => expect p n fun bs => expectRuns k fun runs => f (bs :: runs)

def chanceAny (k : Nat) (event : List Bool → Prop) [DecidablePred event] : R :=
  expectRuns p n k fun runs => if ∃ bs ∈ runs, event bs then 1 else 0

variable {p n}

theorem expectRuns_const (k : Nat) (c : R) : expectRuns p n k (fun _ => c) = c := by
  induction k with
  | zero => rfl
  | succ k ih => rw [expectRuns, ih, expect_const]

theorem expectRuns_add (k : Nat) (f g : List (List Bool) → R) :
    expectRuns p n k (fun runs => f runs + g runs) = expectRuns p n k f + expectRuns p n k g := by
  induction k generalizing f g with
  | zero => rfl
  | succ k ih => simp only [expectRuns, ih, expect_add]

variable [PartialOrder R] [IsOrderedRing R]

theorem expectRuns_mono (hp : 0 ≤ p) (hp1 : p ≤ 1) {k : Nat} {f g : List (List Bool) → R}
    (h : ∀ runs, f runs ≤ g runs) : expectRuns p n k f ≤ expectRuns p n k g := by
  induction k generalizing f g with
  | zero => exact h []
  | succ k ih => exact expect_mono hp hp1 fun bs _ => ih fun runs => h (bs :: runs)

theorem chanceAny_le (hp : 0 ≤ p) (hp1 : p ≤ 1) (k : Nat) (event : List Bool → Prop)
    [DecidablePred event] : chanceAny p n k event ≤ k * chance p n event := by
  induction k with
  | zero => simp [chanceAny, expectRuns]
  | succ k ih =>
    calc
      chanceAny p n (k + 1) event
          ≤ expect p n (fun bs => (if event bs then 1 else 0) + chanceAny p n k event) := by
        apply expect_mono hp hp1
        intro bs _
        rw [← expectRuns_const k (if event bs then (1 : R) else 0), chanceAny, ← expectRuns_add]
        apply expectRuns_mono hp hp1
        intro runs
        by_cases hevent : event bs <;> by_cases hruns : ∃ bs ∈ runs, event bs <;>
          simp [hevent, hruns]
      _ = chance p n event + chanceAny p n k event := by
        rw [expect_add, expect_const]
        rfl
      _ ≤ chance p n event + k * chance p n event := by gcongr
      _ = ((k + 1 : Nat) : R) * chance p n event := by
        push_cast
        ring

end Several
end Trials
