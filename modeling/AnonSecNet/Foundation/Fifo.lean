import Mathlib.Data.List.Infix

/-! One direction of a reliable connection: what was sent arrives in order, in pieces of any
size. -/

/-- What was received so far, and what is on its way. -/
structure Fifo (α : Type*) where
  got : List α
  pending : List α

namespace Fifo
variable {α : Type*}

def empty : Fifo α := ⟨[], []⟩

def sent (q : Fifo α) : List α := q.got ++ q.pending

def send (q : Fifo α) (xs : List α) : Fifo α := { q with pending := q.pending ++ xs }

/-- The next `n` items, once they are all there. -/
def recv (q : Fifo α) (n : Nat) : Option (List α × Fifo α) :=
  if n ≤ q.pending.length then
    some (q.pending.take n, ⟨q.got ++ q.pending.take n, q.pending.drop n⟩)
  else none

theorem sent_send (q : Fifo α) (xs : List α) : (q.send xs).sent = q.sent ++ xs :=
  (List.append_assoc q.got q.pending xs).symm

theorem got_isPrefix_sent (q : Fifo α) : q.got <+: q.sent := List.prefix_append q.got q.pending

theorem recv_cases {q q' : Fifo α} {n : Nat} {xs : List α} (h : q.recv n = some (xs, q')) :
    xs.length = n ∧ q'.got = q.got ++ xs ∧ q'.sent = q.sent := by
  unfold recv at h
  split at h
  · rename_i hn
    obtain ⟨rfl, rfl⟩ := Prod.mk.inj (Option.some.inj h)
    refine ⟨List.length_take_of_le hn, rfl, ?_⟩
    unfold sent
    rw [List.append_assoc, List.take_append_drop]
  · cases h

/-- What follows `xs` in a stream of which `xs ++ ys` was received. -/
theorem rest_of_got {q : Fifo α} {xs ys unsent rest : List α} (hgot : q.got = xs ++ ys)
    (hstream : q.sent ++ unsent = xs ++ rest) : ys ++ q.pending ++ unsent = rest := by
  unfold sent at hstream
  rw [hgot, List.append_assoc, List.append_assoc] at hstream
  rw [List.append_assoc]
  exact List.append_cancel_left hstream

/-- A stream is cut into blocks in one way. -/
theorem block_of_isPrefix {x y xs ys : List α} (h : x ++ xs <+: y ++ ys)
    (hlen : x.length = y.length) : x = y ∧ xs <+: ys := by
  obtain ⟨rest, h⟩ := h
  rw [List.append_assoc] at h
  obtain ⟨hblock, htail⟩ := List.append_inj h hlen
  exact ⟨hblock, rest, htail⟩

end Fifo
