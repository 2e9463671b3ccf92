import Mathlib.Algebra.Order.Archimedean.Basic
import Mathlib.Data.List.Sort
import Mathlib.Data.Rat.Floor
import Mathlib.Data.Stream.Defs
import Mathlib.Tactic.Linarith

/-! The cover clock of `flowcorr_run.py` and the suppression of its ticks. Times are in
milliseconds. -/
namespace AnonSecNet.Evaluation

/-- A `random.Random`: what `random()` is still going to return. -/
abbrev Rng : Type := Stream' ℚ

/-- `expovariate` as a function of its rate and of the draw that it makes. -/
abbrev Expovariate : Type := ℚ → ℚ → ℚ

variable (expovariate : Expovariate) (mean : ℚ)

def clampTick (iv : ℚ) : ℚ :=
  let iv := if iv < 10 then 10 else iv
  if 1000 < iv then 1000 else iv

/-- `_cover_tick_ms`. -/
def coverTickMs (rng : Rng) : ℚ × Rng :=
  (clampTick (expovariate (1 / mean) rng.head), rng.tail)

section
variable {β : Type*} (draw : Rng → β × Rng)

/-- `while t < horizon`, with a tick added and tested in every round: the ticks that are below
the horizon, with what is drawn at each of them. -/
def tickLoop (horizon : ℚ) : Nat → ℚ → Rng → List (ℚ × β) × Rng
  | 0, _, rng => ([], rng)
  | rounds + 1, t, rng =>
    if t < horizon then
      let (iv, rng) := coverTickMs expovariate mean rng
      let t := t + iv
      if horizon ≤ t then ([], rng)
      else
        let (x, rng) := draw rng
        let (ticks, rng) := tickLoop horizon rounds t rng
        ((t, x) :: ticks, rng)
    else ([], rng)

/-- More rounds than the shortest ticks can take. -/
def tickRounds (horizon : ℚ) : Nat := ⌈horizon / 10⌉.toNat + 1

/-- The clock that starts at `t`, after `n` ticks. -/
def clockAt (t : ℚ) (rng : Rng) : Nat → ℚ
  | 0 => t
  | n + 1 => clockAt (t + (coverTickMs expovariate mean rng).1)
      (draw (coverTickMs expovariate mean rng).2).2 n

end

/-- Nothing else is drawn at a tick. -/
def noDraw (rng : Rng) : Unit × Rng := ((), rng)

def clockTicks (horizon : ℚ) (rng : Rng) : List ℚ :=
  (tickLoop expovariate mean noDraw horizon (tickRounds horizon) 0 rng).1.map Prod.fst

theorem clampTick_bounds (iv : ℚ) : 10 ≤ clampTick iv ∧ clampTick iv ≤ 1000 := by
  unfold clampTick
  dsimp only
  split <;> split <;> constructor <;> linarith

section
variable {β : Type*} (draw : Rng → β × Rng)

/-- The loop comes to its end: it visits the ticks of the clock as long as they are below the
horizon. -/
theorem tickLoop_eq {horizon : ℚ} {rounds : Nat} {t : ℚ} (rng : Rng)
    (hrounds : horizon < t + 10 * rounds) :
    ∃ n, (tickLoop expovariate mean draw horizon rounds t rng).1.map Prod.fst
        = (List.range n).map (fun i => clockAt expovariate mean draw t rng (i + 1)) ∧
      (∀ i < n, clockAt expovariate mean draw t rng (i + 1) < horizon) ∧
      horizon ≤ clockAt expovariate mean draw t rng (n + 1) := by
  have htick := (clampTick_bounds (expovariate (1 / mean) rng.head)).1
  induction rounds generalizing t rng with
  | zero =>
    refine ⟨0, rfl, fun i hi => absurd hi (Nat.not_lt_zero i), ?_⟩
    change horizon ≤ t + clampTick _
    simp only [Nat.cast_zero, mul_zero] at hrounds
    linarith
  | succ rounds ih =>
    unfold tickLoop
    by_cases hlow : t < horizon
    · rw [if_pos hlow]
      dsimp only
      by_cases hhigh : horizon ≤ t + (coverTickMs expovariate mean rng).1
      · rw [if_pos hhigh]
        exact ⟨0, rfl, fun i hi => absurd hi (Nat.not_lt_zero i), hhigh⟩
      · rw [if_neg hhigh]
        have hrest : horizon < t + (coverTickMs expovariate mean rng).1 + 10 * rounds := by
          push_cast at hrounds
          change horizon < t + clampTick _ + _
          linarith
        obtain ⟨n, hticks, hbelow, hend⟩ := ih (draw (coverTickMs expovariate mean rng).2).2
          hrest (clampTick_bounds _).1
        refine ⟨n + 1, ?_, ?_, hend⟩
        · rw [List.map_cons, hticks, List.range_succ_eq_map, List.map_cons, List.map_map]
          rfl
        · intro i hi
          cases i with
          | zero => exact not_le.mp hhigh
          | succ i => exact hbelow i (Nat.succ_lt_succ_iff.mp hi)
    · rw [if_neg hlow]
      refine ⟨0, rfl, fun i hi => absurd hi (Nat.not_lt_zero i), ?_⟩
      change horizon ≤ t + clampTick _
      linarith

theorem clockAt_succ (t : ℚ) (rng : Rng) (n : Nat) :
    clockAt expovariate mean draw t rng n + 10 ≤ clockAt expovariate mean draw t rng (n + 1) := by
  induction n generalizing t rng with
  | zero =>
    have htick := (clampTick_bounds (expovariate (1 / mean) rng.head)).1
    change t + 10 ≤ t + clampTick _
    linarith
  | succ n ih => exact ih _ _

theorem clockAt_strictMono (t : ℚ) (rng : Rng) :
    StrictMono (clockAt expovariate mean draw t rng) :=
  strictMono_nat_of_lt_succ fun n => by
    have := clockAt_succ expovariate mean draw t rng n
    linarith

/-- The ticks are those of the clock that are below the horizon. -/
theorem clockTicks_eq (horizon : ℚ) (rng : Rng) :
    ∃ n, clockTicks expovariate mean horizon rng
        = (List.range n).map (fun i => clockAt expovariate mean noDraw 0 rng (i + 1)) ∧
      ∀ i, i < n ↔ clockAt expovariate mean noDraw 0 rng (i + 1) < horizon := by
  have hceil : horizon / 10 ≤ (⌈horizon / 10⌉.toNat : ℚ) :=
    (Int.le_ceil _).trans (by exact_mod_cast Int.self_le_toNat ⌈horizon / 10⌉)
  have hrounds : horizon < 0 + 10 * (tickRounds horizon : ℚ) := by
    unfold tickRounds
    push_cast
    linarith
  obtain ⟨n, hticks, hbelow, hend⟩ := tickLoop_eq expovariate mean noDraw rng hrounds
  refine ⟨n, hticks, fun i => ⟨hbelow i, fun hi => ?_⟩⟩
  by_contra hn
  have hmono := (clockAt_strictMono expovariate mean noDraw 0 rng).monotone
    (show n + 1 ≤ i + 1 by omega)
  exact absurd (hend.trans hmono) (not_le.mpr hi)

theorem clockTicks_sorted (horizon : ℚ) (rng : Rng) :
    (clockTicks expovariate mean horizon rng).Pairwise (· ≤ ·) := by
  obtain ⟨n, hticks, -⟩ := clockTicks_eq expovariate mean horizon rng
  rw [hticks, List.pairwise_map]
  exact List.pairwise_lt_range.imp fun h =>
    (clockAt_strictMono expovariate mean noDraw 0 rng).monotone (Nat.succ_le_succ h.le)

end
end AnonSecNet.Evaluation
