import AnonSecNet.Foundation.Octets

/-! C buffers with sizes and offsets that are computed as `int`: an allocation or a copy that its
buffers do not allow ends the computation. -/

inductive Fault where
  | size
  | read
  | write
deriving DecidableEq

namespace Buffers
open Octets

/-- `malloc(size)`. -/
def malloc (size : Int) : Except Fault (List UInt8) :=
  if size < 0 then .error .size else .ok (List.replicate size.toNat 0)

/-- `buf[i] = b`. -/
def store (buf : List UInt8) (i : Int) (b : UInt8) : Except Fault (List UInt8) :=
  if i < 0 ∨ buf.length ≤ i then .error .write else .ok (buf.set i.toNat b)

/-- `memcpy(dst + off, src + srcOff, len)`; a negative `len` becomes a huge `size_t`. -/
def memcpy (dst : List UInt8) (off : Int) (src : List UInt8) (srcOff len : Int) :
    Except Fault (List UInt8) :=
  if len < 0 then .error .size
  else if srcOff < 0 ∨ src.length < srcOff + len then .error .read
  else if off < 0 ∨ dst.length < off + len then .error .write
  else
    .ok (dst.take off.toNat ++ (src.drop srcOff.toNat).take len.toNat
      ++ dst.drop (off + len).toNat)

/-- `(uint8_t)(x >> 8 * i)`. -/
def byteOf (x : Int) (i : Nat) : UInt8 := UInt8.ofNat (x / 256 ^ i % 256).toNat

theorem ok_bind {α β : Type} (a : α) (f : α → Except Fault β) :
    ((.ok a : Except Fault α) >>= f) = f a := rfl

theorem byteOf_two (n : Nat) : [byteOf n 1, byteOf n 0] = bigEndianList 2 n := by
  have hbyte : ∀ i, byteOf n i = UInt8.ofNat (n / 256 ^ i) := by
    intro i
    unfold byteOf
    have hcast : ((n : Int) / 256 ^ i % 256).toNat = n / 256 ^ i % 256 := by
      exact_mod_cast Int.toNat_natCast (n / 256 ^ i % 256)
    rw [hcast]
    exact UInt8.ofNat_mod_size
  rw [hbyte, hbyte]
  rfl

/-! Buffers that are written from the front to the end. -/

/-- `n` bytes of which `written` come first. -/
def filled (written : List UInt8) (n : Nat) : List UInt8 :=
  written ++ List.replicate (n - written.length) 0

variable {written src : List UInt8} {n : Nat}

theorem filled_all (h : written.length = n) : filled written n = written := by
  unfold filled
  rw [h, Nat.sub_self]
  exact List.append_nil _

theorem length_filled (h : written.length ≤ n) : (filled written n).length = n := by
  unfold filled
  rw [List.length_append, List.length_replicate]
  omega

theorem malloc_eq {size : Int} (h : size = n) : malloc size = .ok (filled [] n) := by
  unfold malloc
  rw [if_neg (by omega), h]
  rfl

theorem store_next {i : Int} (hi : i = written.length) (h : written.length < n) (b : UInt8) :
    store (filled written n) i b = .ok (filled (written ++ [b]) n) := by
  have hlength := length_filled h.le
  unfold store
  rw [if_neg (by omega), hi, Int.toNat_natCast]
  unfold filled
  rw [List.set_append_right _ _ le_rfl, Nat.sub_self, List.append_assoc,
    show n - written.length = n - (written ++ [b]).length + 1 by simp; omega,
    List.replicate_succ, List.set_cons_zero]
  rfl

theorem memcpy_next {off srcOff' len' : Int} {srcOff len : Nat} (hoff : off = written.length)
    (hsrcOff : srcOff' = srcOff) (hlen : len' = len) (hread : srcOff + len ≤ src.length)
    (hwrite : written.length + len ≤ n) :
    memcpy (filled written n) off src srcOff' len'
      = .ok (filled (written ++ (src.drop srcOff).take len) n) := by
  have hlength : (filled written n).length = n := length_filled (by omega)
  have hpiece : ((src.drop srcOff).take len).length = len := by
    rw [List.length_take, List.length_drop]
    omega
  unfold memcpy
  rw [if_neg (by omega), if_neg (by omega), if_neg (by omega), hoff, hsrcOff, hlen,
    Int.toNat_natCast, Int.toNat_natCast, Int.toNat_natCast]
  have hend : ((written.length : Int) + (len : Int)).toNat = written.length + len := by omega
  rw [hend]
  unfold filled
  rw [List.take_left, ← List.drop_drop, List.drop_left, List.drop_replicate, List.length_append,
    hpiece, Nat.sub_sub]

/-- A copy of more than there is. -/
theorem memcpy_beyond {dst : List UInt8} {off srcOff len : Int} (hlen : 0 ≤ len)
    (h : src.length < srcOff + len) : memcpy dst off src srcOff len = .error .read := by
  unfold memcpy
  rw [if_neg (by omega), if_pos (.inr h)]

/-! Strings that end with a zero byte, as `%.*s` prints them. -/

/-- How many bytes are looked at for a precision, the one that ends the string included. -/
def looked (precision : Nat) (memory : List UInt8) : Nat :=
  min precision ((memory.takeWhile (· ≠ 0)).length + 1)

/-- No byte behind those received is looked at exactly if the precision or a zero byte ends
the string before. -/
theorem looked_le_iff (precision : Nat) (received stale : List UInt8) :
    looked precision (received ++ stale) ≤ received.length ↔
      precision ≤ received.length ∨ 0 ∈ received := by
  unfold looked
  by_cases hzero : 0 ∈ received
  · refine iff_of_true ((Nat.min_le_right _ _).trans ?_) (.inr hzero)
    obtain ⟨before, after, rfl, hbefore⟩ := List.eq_append_cons_of_mem hzero
    have hstop : ((before ++ 0 :: after) ++ stale).takeWhile (· ≠ 0) = before := by
      rw [List.append_assoc, List.takeWhile_append_of_pos]
      · simp
      · exact fun b hb => decide_eq_true fun heq => hbefore (heq ▸ hb)
    rw [hstop, List.length_append, List.length_cons]
    omega
  · have hwhole : received.length ≤ ((received ++ stale).takeWhile (· ≠ 0)).length := by
      rw [List.takeWhile_append_of_pos, List.length_append]
      · omega
      · exact fun b hb => decide_eq_true fun heq => hzero (heq ▸ hb)
    constructor
    · intro h
      exact .inl (by omega)
    · rintro (hprecision | h)
      · exact (Nat.min_le_left _ _).trans hprecision
      · exact absurd h hzero

end Buffers
