import Mathlib.Data.List.Basic
import Mathlib.Tactic.Ring

/-! Fixed-size byte arrays with reads and writes at offsets, big-endian numbers,
and XOR with a keystream. Nothing here names a packet format. -/
namespace Octets
variable {m n : Nat}

/-- A C array of `n` bytes. -/
@[ext] structure Bytes (n : Nat) where
  toList : List UInt8
  length_eq : toList.length = n
deriving DecidableEq

attribute [simp] Bytes.length_eq

namespace Bytes

def zero (n : Nat) : Bytes n := ⟨List.replicate n 0, by simp⟩

instance : Inhabited (Bytes n) := ⟨zero n⟩

def ofList (l : List UInt8) : Bytes l.length := ⟨l, rfl⟩

/-- The first `n` bytes, zeros after the end. -/
def fit (n : Nat) (l : List UInt8) : Bytes n := ⟨(l ++ List.replicate n 0).take n, by simp⟩

def append (a : Bytes m) (b : Bytes n) : Bytes (m + n) :=
  ⟨a.toList ++ b.toList, by simp⟩

instance : HAppend (Bytes m) (Bytes n) (Bytes (m + n)) := ⟨append⟩

def byte (b : Bytes n) (i : Nat) (h : i < n := by decide) : UInt8 :=
  b.toList.get ⟨i, by rw [b.length_eq]; exact h⟩

/-- `memcpy(dst, b + off, len)`. -/
def read (b : Bytes n) (off len : Nat) (h : off + len ≤ n := by decide) : Bytes len :=
  ⟨(b.toList.drop off).take len, by simp; omega⟩

/-- `memcpy(b + off, src, m)`. -/
def write (b : Bytes n) (off : Nat) (src : Bytes m) (h : off + m ≤ n := by decide) : Bytes n :=
  ⟨b.toList.take off ++ src.toList ++ b.toList.drop (off + m), by simp; omega⟩

@[simp] theorem toList_ofList (l : List UInt8) : (ofList l).toList = l := rfl

@[simp] theorem toList_append (a : Bytes m) (b : Bytes n) :
    (a ++ b).toList = a.toList ++ b.toList := rfl

@[simp] theorem toList_read (b : Bytes n) (off len : Nat) (h : off + len ≤ n) :
    (b.read off len h).toList = (b.toList.drop off).take len := rfl

@[simp] theorem toList_write (b : Bytes n) (off : Nat) (src : Bytes m) (h : off + m ≤ n) :
    (b.write off src h).toList = b.toList.take off ++ src.toList ++ b.toList.drop (off + m) := rfl

theorem fit_append (b : Bytes n) (l : List UInt8) : fit n (b.toList ++ l) = b := by
  ext1
  change (b.toList ++ l ++ List.replicate n 0).take n = b.toList
  rw [List.append_assoc, List.take_left' b.length_eq]

theorem toList_fit_of_le {l : List UInt8} (h : n ≤ l.length) : (fit n l).toList = l.take n :=
  List.take_append_of_le_length h

theorem toList_fit_padded {l : List UInt8} (h : l.length ≤ n) :
    (fit n l).toList = l ++ List.replicate (n - l.length) 0 := by
  change (l ++ List.replicate n 0).take n = _
  rw [List.take_append, List.take_of_length_le h, List.take_replicate,
    Nat.min_eq_left (Nat.sub_le n l.length)]

theorem read_self (b : Bytes n) : b.read 0 n (by omega) = b := by
  ext1
  rw [toList_read, List.drop_zero, List.take_of_length_le (by simp)]

theorem read_read (b : Bytes n) (o l o' l' : Nat) (h : o + l ≤ n) (h' : o' + l' ≤ l) :
    (b.read o l h).read o' l' h' = b.read (o + o') l' (by omega) := by
  ext1
  simp only [toList_read, List.drop_take, List.drop_drop, List.take_take]
  rw [Nat.min_eq_left (by omega)]

/-- A field is equal when its two parts are. -/
theorem read_eq_read_iff {n n' : Nat} {b : Bytes n} {b' : Bytes n'} {o o' : Nat} (l k : Nat)
    (h : o + (l + k) ≤ n) (h' : o' + (l + k) ≤ n') :
    b.read o (l + k) h = b'.read o' (l + k) h' ↔
      b.read o l (by omega) = b'.read o' l (by omega) ∧
        b.read (o + l) k (by omega) = b'.read (o' + l) k (by omega) := by
  have hlen : ((b.toList.drop o).take l).length = ((b'.toList.drop o').take l).length := by
    simp only [List.length_take, List.length_drop, Bytes.length_eq]
    omega
  simp only [Bytes.ext_iff, toList_read, List.take_add, List.drop_drop]
  constructor
  · intro heq
    exact List.append_inj heq hlen
  · rintro ⟨h₁, h₂⟩
    rw [h₁, h₂]

theorem read_append_left (a : Bytes m) (b : Bytes n) (off len : Nat) (h : off + len ≤ m) :
    (a ++ b).read off len (by omega) = a.read off len h := by
  ext1
  simp only [toList_read, toList_append]
  rw [List.drop_append_of_le_length (by simp; omega),
    List.take_append_of_le_length (by simp; omega)]

theorem read_append_right (a : Bytes m) (b : Bytes n) (off len : Nat) (hm : m ≤ off)
    (h : off + len ≤ m + n) :
    (a ++ b).read off len h = b.read (off - m) len (by omega) := by
  ext1
  simp only [toList_read, toList_append]
  rw [List.drop_append, List.drop_of_length_le (by simp; omega), List.nil_append, a.length_eq]

theorem read_append_fst (a : Bytes m) (b : Bytes n) : (a ++ b).read 0 m (by omega) = a := by
  rw [read_append_left a b 0 m (by omega), read_self]

theorem read_append_snd (a : Bytes m) (b : Bytes n) : (a ++ b).read m n (by omega) = b := by
  rw [read_append_right a b m n (le_refl m) (le_refl _)]
  simp only [Nat.sub_self, read_self]

theorem read_write_same (b : Bytes n) (off : Nat) (src : Bytes m) (h : off + m ≤ n) :
    (b.write off src h).read off m h = src := by
  ext1
  simp only [toList_read, toList_write, List.append_assoc]
  rw [List.drop_left' (by simp; omega), List.take_left' (by simp)]

theorem read_write_before {b : Bytes n} {off off' len : Nat} {src : Bytes m}
    (h : off + m ≤ n) (h' : off' + len ≤ n) (hd : off' + len ≤ off) :
    (b.write off src h).read off' len h' = b.read off' len h' := by
  ext1
  simp only [toList_read, toList_write, List.append_assoc]
  rw [List.drop_append_of_le_length (by simp; omega),
    List.take_append_of_le_length (by simp; omega), List.drop_take, List.take_take,
    Nat.min_eq_left (by omega)]

theorem drop_write {b : Bytes n} {off k : Nat} {src : Bytes m} (h : off + m ≤ n)
    (hk : off + m ≤ k) : (b.write off src h).toList.drop k = b.toList.drop k := by
  have hfront : (b.toList.take off ++ src.toList).length = off + m := by simp; omega
  rw [toList_write, List.drop_append, List.drop_of_length_le (by omega), List.nil_append, hfront,
    List.drop_drop, Nat.add_sub_cancel' hk]

theorem read_write_after {b : Bytes n} {off off' len : Nat} {src : Bytes m}
    (h : off + m ≤ n) (h' : off' + len ≤ n) (hd : off + m ≤ off') :
    (b.write off src h).read off' len h' = b.read off' len h' := by
  ext1
  rw [toList_read, drop_write h hd, toList_read]

/-- A read inside a field that is known. -/
theorem read_within {b : Bytes n} {off m : Nat} {h : off + m ≤ n} {x : Bytes m}
    (hx : b.read off m h = x) (o l : Nat) (h' : o + l ≤ m) :
    b.read (off + o) l (by omega) = x.read o l h' := by
  rw [← hx, read_read]

theorem byte_of_read {b : Bytes n} {i : Nat} {h : i + 1 ≤ n} {x : Bytes 1}
    (hx : b.read i 1 h = x) : b.byte i h = x.byte 0 := by
  subst hx
  simp [byte]

/-- Buffers of one size, one behind the other. -/
theorem length_stacked {ι : Type*} (f : ι → Bytes n) (l : List ι) :
    (l.flatMap fun i => (f i).toList).length = l.length * n := by
  induction l with
  | nil => simp
  | cons i l ih =>
    rw [List.flatMap_cons, List.length_append, ih, (f i).length_eq, List.length_cons]
    ring

/-! A buffer that starts with given bytes: headers are stacked and shifted this way. -/

theorem read_of_leading {b : Bytes n} {x : Bytes m} {l : List UInt8}
    (h : x.toList ++ l <+: b.toList) (hm : 0 + m ≤ n) : b.read 0 m hm = x := by
  obtain ⟨t, ht⟩ := h
  ext1
  rw [toList_read, List.drop_zero, ← ht, List.append_assoc, List.take_left' x.length_eq]

theorem leading_of_read {b : Bytes n} {x : Bytes m} {l : List UInt8} {k : Nat}
    (h : x.toList ++ l <+: b.toList) (hk : m + k ≤ n) (hl : l.length ≤ k) :
    l <+: (b.read m k hk).toList := by
  obtain ⟨t, ht⟩ := h
  rw [toList_read, ← ht, List.append_assoc, List.drop_left' x.length_eq]
  exact List.prefix_take_iff.mpr ⟨List.prefix_append l t, hl⟩

theorem leading_write {b : Bytes n} {src : Bytes m} {l : List UInt8} (h : l <+: src.toList)
    (hm : 0 + m ≤ n) : l <+: (b.write 0 src hm).toList := by
  obtain ⟨t, ht⟩ := h
  rw [toList_write, List.take_zero, List.nil_append, ← ht, List.append_assoc]
  exact List.prefix_append l _

theorem leading_write_after {b : Bytes n} {src : Bytes m} {l : List UInt8} {off : Nat}
    (h : l <+: b.toList) (ho : off + m ≤ n) (hl : l.length ≤ off) :
    l <+: (b.write off src ho).toList := by
  rw [toList_write, List.append_assoc]
  exact (List.prefix_take_iff.mpr ⟨h, hl⟩).trans (List.prefix_append _ _)

end Bytes

/-! Big-endian numbers. -/

def bigEndianList : Nat → Nat → List UInt8
  | 0, _ => []
  | k + 1, x => UInt8.ofNat (x / 256 ^ k) :: bigEndianList k x

theorem length_bigEndianList (k x : Nat) : (bigEndianList k x).length = k := by
  induction k with
  | zero => rfl
  | succ k ih => simp [bigEndianList, ih]

/-- The low `k` bytes of `x`, most significant first. -/
def bigEndian (k x : Nat) : Bytes k := ⟨bigEndianList k x, length_bigEndianList k x⟩

def valueList (l : List UInt8) : Nat := l.foldl (fun acc b => acc * 256 + b.toNat) 0

def Bytes.value (b : Bytes n) : Nat := valueList b.toList

theorem foldl_value (l : List UInt8) (acc : Nat) :
    l.foldl (fun acc b => acc * 256 + b.toNat) acc = acc * 256 ^ l.length + valueList l := by
  induction l generalizing acc with
  | nil => simp [valueList]
  | cons b l ih =>
    simp only [valueList, List.foldl_cons, List.length_cons]
    rw [ih (acc * 256 + b.toNat), ih (0 * 256 + b.toNat)]
    ring

theorem valueList_bigEndianList (k x : Nat) : valueList (bigEndianList k x) = x % 256 ^ k := by
  induction k with
  | zero => simp [bigEndianList, valueList, Nat.mod_one]
  | succ k ih =>
    have hb : (UInt8.ofNat (x / 256 ^ k)).toNat = x / 256 ^ k % 256 := by simp
    rw [bigEndianList, valueList, List.foldl_cons, foldl_value, length_bigEndianList, ih, hb,
      pow_succ, Nat.mod_mul]
    ring

/-- A number that fits its field is read back unchanged. -/
theorem value_bigEndian {k x : Nat} (h : x < 256 ^ k) : (bigEndian k x).value = x := by
  rw [Bytes.value, bigEndian, valueList_bigEndianList, Nat.mod_eq_of_lt h]

theorem bigEndian_inj {k x y : Nat} (hx : x < 256 ^ k) (hy : y < 256 ^ k)
    (h : bigEndian k x = bigEndian k y) : x = y := by
  rw [← value_bigEndian hx, h, value_bigEndian hy]

theorem bigEndianList_mod {k m : Nat} (h : k ≤ m) (x : Nat) :
    bigEndianList k (x % 256 ^ m) = bigEndianList k x := by
  induction k with
  | zero => rfl
  | succ k ih =>
    rw [bigEndianList, bigEndianList, ih (by omega)]
    congr 1
    obtain ⟨n, rfl⟩ := Nat.exists_eq_add_of_le h
    rw [show k + 1 + n = k + (n + 1) by omega, pow_add, Nat.mod_mul_right_div_self]
    apply UInt8.toNat_inj.mp
    rw [UInt8.toNat_ofNat', UInt8.toNat_ofNat']
    exact Nat.mod_mod_of_dvd _ (dvd_pow_self 256 (Nat.succ_ne_zero n))

/-- A field keeps the value modulo its width. -/
theorem bigEndian_mod (k x : Nat) : bigEndian k (x % 256 ^ k) = bigEndian k x :=
  Bytes.ext (bigEndianList_mod le_rfl x)

theorem valueList_lt (l : List UInt8) : valueList l < 256 ^ l.length := by
  induction l with
  | nil => exact Nat.zero_lt_one
  | cons b l ih =>
    have hb : b.toNat + 1 ≤ 256 := b.toNat_lt
    rw [valueList, List.foldl_cons, foldl_value, List.length_cons, Nat.zero_mul, Nat.zero_add]
    calc b.toNat * 256 ^ l.length + valueList l
        < b.toNat * 256 ^ l.length + 256 ^ l.length := Nat.add_lt_add_left ih _
      _ = (b.toNat + 1) * 256 ^ l.length := (Nat.succ_mul _ _).symm
      _ ≤ 256 * 256 ^ l.length := Nat.mul_le_mul_right _ hb
      _ = 256 ^ (l.length + 1) := (Nat.pow_succ').symm

/-- A field is the bytes of its value. -/
theorem bigEndianList_valueList (l : List UInt8) : bigEndianList l.length (valueList l) = l := by
  induction l with
  | nil => rfl
  | cons b l ih =>
    have hlow := valueList_lt l
    have hvalue : valueList (b :: l) = 256 ^ l.length * b.toNat + valueList l := by
      rw [valueList, List.foldl_cons, foldl_value]
      ring
    rw [List.length_cons, bigEndianList, hvalue, ← bigEndianList_mod (Nat.le_refl _),
      Nat.mul_add_mod, Nat.mod_eq_of_lt hlow, ih, Nat.mul_add_div (Nat.pow_pos (by decide)),
      Nat.div_eq_of_lt hlow, Nat.add_zero, UInt8.ofNat_toNat]

/-! XOR with a keystream. -/

def xorList (ks : Nat → UInt8) : List UInt8 → List UInt8
  | [] => []
  | b :: bs => (b ^^^ ks 0) :: xorList (fun i => ks (i + 1)) bs

@[simp] theorem length_xorList (ks : Nat → UInt8) (l : List UInt8) :
    (xorList ks l).length = l.length := by
  induction l generalizing ks with
  | nil => rfl
  | cons b bs ih => simp [xorList, ih]

theorem xorList_xorList (ks : Nat → UInt8) (l : List UInt8) : xorList ks (xorList ks l) = l := by
  induction l generalizing ks with
  | nil => rfl
  | cons b bs ih =>
    rw [xorList, xorList, ih, UInt8.xor_assoc, UInt8.xor_self, UInt8.xor_zero]

theorem xorList_drop (ks : Nat → UInt8) (l : List UInt8) (k : Nat) :
    (xorList ks l).drop k = xorList (fun i => ks (k + i)) (l.drop k) := by
  induction k generalizing ks l with
  | zero => simp
  | succ k ih =>
    cases l with
    | nil => rfl
    | cons b bs => simpa [xorList, Nat.add_right_comm] using ih (fun i => ks (i + 1)) bs

namespace Bytes

def xor (ks : Nat → UInt8) (b : Bytes n) : Bytes n := ⟨xorList ks b.toList, by simp⟩

@[simp] theorem toList_xor (ks : Nat → UInt8) (b : Bytes n) :
    (b.xor ks).toList = xorList ks b.toList := rfl

@[simp] theorem xor_xor (ks : Nat → UInt8) (b : Bytes n) : (b.xor ks).xor ks = b := by
  ext1
  exact xorList_xorList ks b.toList

end Bytes
end Octets
