import Mathlib.Data.List.Range
import Mathlib.Data.Nat.ModEq
import Mathlib.Logic.Function.Basic

/-! A first-in first-out queue in an array of fixed size. A cell is filled in place, so that
something of what it held before may stay behind. -/

structure RingBuffer (α : Type*) (cap : Nat) where
  cells : Fin cap → α
  head : Fin cap
  count : Nat
  count_le : count ≤ cap

namespace RingBuffer
variable {α β : Type*} {cap : Nat} [NeZero cap]

def empty (x : α) : RingBuffer α cap := ⟨fun _ => x, 0, 0, Nat.zero_le cap⟩

/-- The cell `k` places behind the front. -/
def cell (r : RingBuffer α cap) (k : Nat) : Fin cap := Fin.ofNat cap (r.head + k)

def contents (r : RingBuffer α cap) : List α :=
  (List.range r.count).map fun k => r.cells (r.cell k)

def front (r : RingBuffer α cap) : Option α :=
  if r.count = 0 then none else some (r.cells r.head)

def dropFront (r : RingBuffer α cap) : RingBuffer α cap :=
  { r with
    head := r.cell 1
    count := r.count - 1
    count_le := (Nat.sub_le r.count 1).trans r.count_le }

def fillBack (r : RingBuffer α cap) (fill : α → α) (h : r.count < cap) : RingBuffer α cap :=
  { r with
    cells := Function.update r.cells (r.cell r.count) (fill (r.cells (r.cell r.count)))
    count := r.count + 1
    count_le := h }

theorem count_dropFront_lt (r : RingBuffer α cap) : r.dropFront.count < cap := by
  have hcap := Nat.pos_of_ne_zero (NeZero.ne cap)
  have hle := r.count_le
  simp only [dropFront]
  omega

/-- A full buffer loses its front. -/
def push (r : RingBuffer α cap) (fill : α → α) : RingBuffer α cap :=
  if h : r.count = cap then r.dropFront.fillBack fill r.count_dropFront_lt
  else r.fillBack fill (Nat.lt_of_le_of_ne r.count_le h)

/-- Drops the front as long as `p` holds of it. -/
def dropFrontWhile (p : α → Bool) (r : RingBuffer α cap) : RingBuffer α cap :=
  let rec drop : Nat → RingBuffer α cap → RingBuffer α cap
    | 0, r => r
    | count + 1, r => if p (r.cells r.head) then drop count r.dropFront else r
  drop r.count r

/-! The queue as a list. -/

@[simp] theorem length_contents (r : RingBuffer α cap) : r.contents.length = r.count := by
  simp [contents]

theorem cell_zero (r : RingBuffer α cap) : r.cell 0 = r.head := by
  apply Fin.ext
  simp [cell]

/-- Fewer than `cap` places apart, two cells differ. -/
theorem cell_injective {r : RingBuffer α cap} {j k : Nat} (hj : j < cap) (hk : k < cap)
    (h : r.cell j = r.cell k) : j = k := by
  have hmod : r.head + j ≡ r.head + k [MOD cap] := congrArg Fin.val h
  exact (Nat.ModEq.add_left_cancel' _ hmod).eq_of_lt_of_lt hj hk

theorem cell_dropFront (r : RingBuffer α cap) (k : Nat) :
    r.dropFront.cell k = r.cell (k + 1) := by
  apply Fin.ext
  simp only [cell, dropFront, Fin.val_ofNat, Nat.mod_add_mod]
  rw [Nat.add_assoc, Nat.add_comm 1 k]

theorem contents_dropFront (r : RingBuffer α cap) : r.dropFront.contents = r.contents.tail := by
  have hcells : ∀ k, r.dropFront.cells (r.dropFront.cell k) = r.cells (r.cell (k + 1)) := by
    intro k
    rw [cell_dropFront]
    rfl
  cases hcount : r.count with
  | zero => simp [contents, dropFront, hcount]
  | succ count =>
    have hleft : r.dropFront.count = count := by simp [dropFront, hcount]
    simp only [contents, hcells, hleft, hcount, List.range_succ_eq_map, List.map_cons,
      List.map_map, List.tail_cons]
    rfl

theorem contents_dropFrontWhile (p : α → Bool) (r : RingBuffer α cap) :
    (r.dropFrontWhile p).contents = r.contents.dropWhile p := by
  have hdrop : ∀ (count : Nat) (r : RingBuffer α cap), r.count = count →
      (dropFrontWhile.drop p count r).contents = r.contents.dropWhile p := by
    intro count
    induction count with
    | zero =>
      intro r hcount
      simp [dropFrontWhile.drop, contents, hcount]
    | succ count ih =>
      intro r hcount
      have hhead : r.contents = r.cells r.head :: r.dropFront.contents := by
        rw [contents_dropFront]
        simp [contents, hcount, List.range_succ_eq_map, cell_zero]
      rw [hhead]
      unfold dropFrontWhile.drop
      split
      · rename_i hp
        rw [List.dropWhile_cons_of_pos hp]
        exact ih r.dropFront (by simp [dropFront, hcount])
      · rename_i hp
        rw [List.dropWhile_cons_of_neg hp, hhead]
  exact hdrop r.count r rfl

theorem front_eq_head (r : RingBuffer α cap) : r.front = r.contents.head? := by
  cases hcount : r.count with
  | zero => simp [front, contents, hcount]
  | succ count =>
    simp [front, contents, hcount, List.range_succ_eq_map, cell_zero]

theorem contents_fillBack (r : RingBuffer α cap) (fill : α → α) (h : r.count < cap) :
    (r.fillBack fill h).contents = r.contents ++ [fill (r.cells (r.cell r.count))] := by
  have hold : ∀ k ∈ List.range r.count,
      Function.update r.cells (r.cell r.count) (fill (r.cells (r.cell r.count))) (r.cell k)
        = r.cells (r.cell k) := by
    intro k hk
    have hlt := List.mem_range.mp hk
    apply Function.update_of_ne
    intro heq
    exact hlt.ne (cell_injective (hlt.trans h) h heq)
  simp only [contents, fillBack, List.range_succ, List.map_append, List.map_cons, List.map_nil]
  congr 1
  · exact List.map_congr_left hold
  · exact congrArg (fun x => [x]) (Function.update_self _ _ _)

/-- Where the filled cell shows only what it was filled with, a push appends, and a full buffer
first loses its oldest entry. -/
theorem map_contents_push (r : RingBuffer α cap) (fill : α → α) (view : α → β) (x : β)
    (hfill : ∀ a, view (fill a) = x) :
    (r.push fill).contents.map view
      = (if r.count = cap then (r.contents.map view).tail else r.contents.map view) ++ [x] := by
  unfold push
  split
  · rw [contents_fillBack, contents_dropFront, List.map_append, List.map_tail]
    simp [hfill]
  · rw [contents_fillBack, List.map_append]
    simp [hfill]

end RingBuffer
