import Mathlib.Data.List.Basic

/-! Buffers that remember where their bytes come from: a read from a connection that closes
too early leaves a part of its buffer as it was. -/
namespace AnonSecNet

/-- A cell of a buffer: read by a read that was completed, by one that was cut off, or not
written at all. -/
inductive Cell (α : Type*) where
  | received (a : α)
  | cut (a : α)
  | memory (a : α)
  deriving DecidableEq

namespace Cell
variable {α : Type*}

def val : Cell α → α
  | received a | cut a | memory a => a

def isReceived : Cell α → Bool
  | received _ => true
  | cut _ | memory _ => false

/-- Read `n` cells into the front of `dst` from what the connection still delivers. -/
def receive (dst : List (Cell α)) (n : Nat) (inp : List α) : List (Cell α) × List α :=
  if inp.length < n then (inp.map .cut ++ dst.drop inp.length, [])
  else ((inp.take n).map .received ++ dst.drop n, inp.drop n)

/-- All of the cells come from completed reads. -/
def AllReceived (cells : List (Cell α)) : Prop := ∀ c ∈ cells, c.isReceived = true

instance (cells : List (Cell α)) : Decidable (AllReceived cells) := List.decidableBAll _ cells

theorem map_val_memory (l : List α) : (l.map memory).map val = l := by
  rw [List.map_map]
  exact List.map_id l

theorem map_val_received (l : List α) : (l.map received).map val = l := by
  rw [List.map_map]
  exact List.map_id l

theorem map_val_receive (dst : List (Cell α)) (n : Nat) (inp : List α) :
    (receive dst n inp).1.map val
      = inp.take n ++ (dst.map val).drop (min n inp.length) := by
  unfold receive
  split
  · rename_i hcut
    rw [List.map_append, List.map_map, List.take_of_length_le (by omega),
      Nat.min_eq_right (by omega), List.map_drop]
    exact congrArg (· ++ _) (List.map_id inp)
  · rename_i hwhole
    rw [List.map_append, List.map_map, Nat.min_eq_left (by omega), List.map_drop]
    exact congrArg (· ++ _) (List.map_id _)

theorem length_receive {dst : List (Cell α)} {n : Nat} (h : n ≤ dst.length) (inp : List α) :
    (receive dst n inp).1.length = dst.length := by
  unfold receive
  split <;> simp <;> omega

/-- A completed read. -/
theorem take_receive {n : Nat} {inp : List α} (h : n ≤ inp.length) (dst : List (Cell α)) :
    (receive dst n inp).1.take n = (inp.take n).map received := by
  unfold receive
  rw [if_neg (by omega)]
  exact List.take_left' (by simp; omega)

theorem allReceived_map (l : List α) : AllReceived (l.map received) := by
  intro c hc
  obtain ⟨a, -, rfl⟩ := List.mem_map.mp hc
  rfl

/-- In a buffer that nothing was read into, a read is completed or it shows. -/
theorem allReceived_receive {old : List α} {n : Nat} (h : n ≤ old.length) (inp : List α) :
    AllReceived ((receive (old.map memory) n inp).1.take n) ↔ n ≤ inp.length := by
  constructor
  · intro hall
    by_contra hcut
    have hpos : 0 < n := by omega
    unfold receive at hall
    rw [if_pos (by omega)] at hall
    cases inp with
    | nil =>
      obtain ⟨a, rest, rfl⟩ := List.exists_cons_of_length_pos (Nat.lt_of_lt_of_le hpos h)
      obtain ⟨m, rfl⟩ := Nat.exists_eq_add_of_le' hpos
      exact Bool.noConfusion (hall (memory a) (by simp))
    | cons a rest =>
      obtain ⟨m, rfl⟩ := Nat.exists_eq_add_of_le' hpos
      exact Bool.noConfusion (hall (cut a) (by simp))
  · intro hwhole
    rw [take_receive hwhole]
    exact allReceived_map _

/-- The last cell alone tells. -/
theorem isReceived_last {old : List α} {n : Nat} (h : n < old.length) (inp : List α)
    (d : Cell α) :
    ((receive (old.map memory) (n + 1) inp).1.getD n d).isReceived = true ↔
      n + 1 ≤ inp.length := by
  by_cases hwhole : n + 1 ≤ inp.length
  · have hlast : (receive (old.map memory) (n + 1) inp).1.getD n d = received (inp[n]) := by
      unfold receive
      rw [if_neg (by omega)]
      simp [List.getElem?_append, Nat.min_eq_left hwhole]
    rw [hlast]
    exact iff_of_true rfl hwhole
  · have hlast : (receive (old.map memory) (n + 1) inp).1.getD n d = memory old[n] := by
      unfold receive
      rw [if_pos (by omega)]
      simp [List.getElem?_append_right, show inp.length ≤ n by omega, h]
    rw [hlast]
    exact iff_of_false Bool.noConfusion hwhole

end Cell
end AnonSecNet
