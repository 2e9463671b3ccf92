import Mathlib.Data.List.Basic

/-! Array accesses that are checked: one outside its array ends the computation. -/

inductive Overrun where
  | read
  | write
deriving DecidableEq

namespace Checked
variable {α : Type*}

/-- `array[i]`. -/
def load (array : List α) (i : Nat) : Except Overrun α :=
  match array[i]? with
  | some x => .ok x
  | none => .error .read

/-- What `memcpy(dst, array + off, len)` copies into a `dst` of `cap` items. -/
def copy (array : List α) (off len cap : Nat) : Except Overrun (List α) :=
  if array.length < off + len then .error .read
  else if cap < len then .error .write
  else .ok ((array.drop off).take len)

/-- What `dst` holds behind `memcpy(dst, array + off, len)`. -/
def memcpy (dst array : List α) (off len : Nat) : Except Overrun (List α) := do
  let items ← copy array off len dst.length
  return items ++ dst.drop len

theorem load_eq {array : List α} {i : Nat} (h : i < array.length) :
    load array i = .ok array[i] := by
  unfold load
  rw [List.getElem?_eq_getElem h]

theorem load_drop {array : List α} {i : Nat} {x : α} {rest : List α}
    (h : array.drop i = x :: rest) : load array i = .ok x := by
  have hget : array[i]? = some x := by
    rw [← Nat.add_zero i, ← List.getElem?_drop, h]
    rfl
  unfold load
  rw [hget]

theorem copy_eq {array : List α} {off len cap : Nat} (hread : off + len ≤ array.length)
    (hwrite : len ≤ cap) : copy array off len cap = .ok ((array.drop off).take len) := by
  unfold copy
  rw [if_neg (Nat.not_lt.mpr hread), if_neg (Nat.not_lt.mpr hwrite)]

theorem memcpy_eq {dst array : List α} {off len : Nat} (hread : off + len ≤ array.length)
    (hwrite : len ≤ dst.length) :
    memcpy dst array off len = .ok ((array.drop off).take len ++ dst.drop len) := by
  unfold memcpy
  rw [copy_eq hread hwrite]
  rfl

/-! An access in front of `rest` does not see it. -/

theorem load_append {array rest : List α} {i : Nat} (h : i < array.length) :
    load (array ++ rest) i = load array i := by
  unfold load
  rw [List.getElem?_append_left h]

theorem copy_append {array rest : List α} {off len : Nat} (h : off + len ≤ array.length)
    (cap : Nat) : copy (array ++ rest) off len cap = copy array off len cap := by
  have hfits : ¬ (array ++ rest).length < off + len := by
    rw [List.length_append]
    omega
  unfold copy
  rw [if_neg hfits, if_neg (Nat.not_lt.mpr h), List.drop_append_of_le_length (by omega),
    List.take_append_of_le_length (by simp; omega)]

end Checked
