import Mathlib.Data.Fin.Basic
import Mathlib.Data.List.FinRange
import Mathlib.Data.List.Induction
import Mathlib.Data.List.Sort
import Mathlib.Data.Nat.ModEq
import Mathlib.Logic.Function.Basic

/-! Tables of slots: the first free slot, the oldest slot that may be reclaimed, and
the ring that remembers the most recent values. -/
namespace Slots
variable {n : Nat} {α : Type*}

/-- Keeps `i` when it is eligible, expired and at least as old as the best so far. -/
def olderOf (ttl : Nat) (age : Fin n → Nat) (eligible : Fin n → Bool)
    (best : Option (Fin n) × Nat) (i : Fin n) : Option (Fin n) × Nat :=
  if eligible i ∧ ttl ≤ age i ∧ best.2 ≤ age i then (some i, age i) else best

/-- The oldest eligible slot past `ttl`, the last one among equals. -/
def oldest (ttl : Nat) (age : Fin n → Nat) (eligible : Fin n → Bool) : Option (Fin n) :=
  ((List.finRange n).foldl (olderOf ttl age eligible) (none, 0)).1

/-- The first slot not in use, or else the oldest expired one. Irreducible, so that no
table is scanned by unfolding. -/
@[irreducible] def alloc (inUse : Fin n → Bool) (ttl : Nat) (age : Fin n → Nat)
    (eligible : Fin n → Bool) : Option (Fin n) :=
  (Fin.find? fun i => !inUse i).or (oldest ttl age eligible)

/-! What is allocated. -/

section
variable {ttl : Nat} {age : Fin n → Nat} {eligible : Fin n → Bool}

/-- Eligible, expired, and ahead of the others: older, or of the same age and behind them. -/
def IsOldest (ttl : Nat) (age : Fin n → Nat) (eligible : Fin n → Bool) (among : List (Fin n))
    (i : Fin n) : Prop :=
  (eligible i = true ∧ ttl ≤ age i) ∧
    ∀ j ∈ among, eligible j = true → ttl ≤ age j → age j < age i ∨ age j = age i ∧ j ≤ i

/-- The scan of a list in ascending order. -/
theorem foldl_olderOf (ttl : Nat) (age : Fin n → Nat) (eligible : Fin n → Bool)
    {l : List (Fin n)} (hl : l.Pairwise (· < ·)) :
    (l.foldl (olderOf ttl age eligible) (none, 0) = (none, 0) ∧
        ∀ j ∈ l, eligible j = true → ¬ ttl ≤ age j) ∨
      ∃ i, l.foldl (olderOf ttl age eligible) (none, 0) = (some i, age i) ∧
        IsOldest ttl age eligible l i := by
  induction l using List.reverseRecOn with
  | nil => exact Or.inl ⟨rfl, fun j hj => by cases hj⟩
  | append_singleton l x ih =>
    obtain ⟨hl, -, hlast⟩ := List.pairwise_append.mp hl
    rw [List.foldl_append, List.foldl_cons, List.foldl_nil]
    obtain ⟨hnone, hno⟩ | ⟨i, hsome, hi, hall⟩ := ih hl
    · rw [hnone]
      by_cases hx : eligible x = true ∧ ttl ≤ age x
      · refine Or.inr ⟨x, if_pos ⟨hx.1, hx.2, Nat.zero_le _⟩, hx, fun j hj he ht => ?_⟩
        obtain hj | hj := List.mem_append.mp hj
        · exact absurd ht (hno j hj he)
        · rw [List.mem_singleton.mp hj]
          exact Or.inr ⟨rfl, le_rfl⟩
      · refine Or.inl ⟨if_neg fun h => hx ⟨h.1, h.2.1⟩, fun j hj he ht => ?_⟩
        obtain hj | hj := List.mem_append.mp hj
        · exact hno j hj he ht
        · rw [List.mem_singleton.mp hj] at he ht
          exact hx ⟨he, ht⟩
    · rw [hsome]
      by_cases hx : eligible x = true ∧ ttl ≤ age x ∧ age i ≤ age x
      · refine Or.inr ⟨x, if_pos hx, ⟨hx.1, hx.2.1⟩, fun j hj he ht => ?_⟩
        obtain hj | hj := List.mem_append.mp hj
        · have hjx := hlast j hj x (List.mem_singleton_self x)
          have hold := hall j hj he ht
          rcases Nat.lt_or_ge (age j) (age x) with hlt | hge
          · exact Or.inl hlt
          · exact Or.inr ⟨by omega, hjx.le⟩
        · rw [List.mem_singleton.mp hj]
          exact Or.inr ⟨rfl, le_rfl⟩
      · refine Or.inr ⟨i, if_neg hx, hi, fun j hj he ht => ?_⟩
        obtain hj | hj := List.mem_append.mp hj
        · exact hall j hj he ht
        · rw [List.mem_singleton.mp hj] at he ht ⊢
          exact Or.inl (Nat.lt_of_not_le fun hle => hx ⟨he, ht, hle⟩)

theorem oldest_eq_some {i : Fin n} :
    oldest ttl age eligible = some i ↔ IsOldest ttl age eligible (List.finRange n) i := by
  unfold oldest
  obtain ⟨hnone, hno⟩ | ⟨k, hsome, hk, hall⟩ := foldl_olderOf ttl age eligible
    (List.sortedLT_finRange n).pairwise
  · rw [hnone]
    constructor
    · intro h
      cases h
    · intro h
      exact absurd h.1.2 (hno i (List.mem_finRange i) h.1.1)
  · rw [hsome]
    constructor
    · intro h
      obtain rfl : k = i := Option.some.inj h
      exact ⟨hk, hall⟩
    · intro h
      have hki := hall i (List.mem_finRange i) h.1.1 h.1.2
      have hik := h.2 k (List.mem_finRange k) hk.1 hk.2
      have heq : k = i := Fin.le_antisymm (by omega) (by omega)
      rw [heq]

theorem alloc_full {inUse : Fin n → Bool} (h : ∀ j, inUse j = true) :
    alloc inUse ttl age eligible = oldest ttl age eligible := by
  unfold alloc
  have hnone : (Fin.find? fun i => !inUse i) = none :=
    Fin.find?_eq_none_iff.mpr fun j => by rw [h j, Bool.not_true]
  rw [hnone, Option.none_or]

theorem alloc_free {inUse : Fin n → Bool} {i : Fin n} (hfree : inUse i = false)
    (hbefore : ∀ j < i, inUse j = true) : alloc inUse ttl age eligible = some i := by
  unfold alloc
  have hfirst : (Fin.find? fun i => !inUse i) = some i := by
    refine Fin.find?_eq_some_iff.mpr ⟨by rw [hfree, Bool.not_false], fun j hj => ?_⟩
    rw [hbefore j hj, Bool.not_true]
  rw [hfirst, Option.some_or]

/-- A slot that is taken was free, or is the oldest expired one of a full table. -/
theorem alloc_eq_some {inUse : Fin n → Bool} {i : Fin n}
    (h : alloc inUse ttl age eligible = some i) :
    inUse i = false ∨
      (∀ j, inUse j = true) ∧ IsOldest ttl age eligible (List.finRange n) i := by
  unfold alloc at h
  cases hfree : Fin.find? fun i => !inUse i with
  | some k =>
    rw [hfree, Option.some_or] at h
    obtain rfl : k = i := Option.some.inj h
    left
    simpa using Fin.eq_true_of_find?_eq_some hfree
  | none =>
    rw [hfree, Option.none_or] at h
    refine Or.inr ⟨fun j => ?_, oldest_eq_some.mp h⟩
    simpa using Fin.find?_eq_none_iff.mp hfree j

/-- A free slot is taken only behind slots in use. -/
theorem alloc_first {inUse : Fin n → Bool} {i j : Fin n}
    (h : alloc inUse ttl age eligible = some i) (hj : j < i) : inUse j = true := by
  unfold alloc at h
  cases hfree : Fin.find? fun i => !inUse i with
  | some k =>
    rw [hfree, Option.some_or] at h
    obtain rfl : k = i := Option.some.inj h
    simpa using Fin.eq_false_of_find?_eq_some_of_lt hfree j hj
  | none => simpa using Fin.find?_eq_none_iff.mp hfree j

end

end Slots

/-- The last `cap` values pushed, the oldest overwritten first. -/
structure Recent (α : Type*) (cap : Nat) where
  slots : Fin cap → α
  count : Nat
  next : Fin cap
  count_le : count ≤ cap

namespace Recent
variable {α : Type*} {cap : Nat}

def empty [Inhabited α] [NeZero cap] : Recent α cap := ⟨fun _ => default, 0, 0, Nat.zero_le _⟩

def Holds (r : Recent α cap) (x : α) : Prop := ∃ i : Fin cap, i.val < r.count ∧ r.slots i = x

instance [DecidableEq α] (r : Recent α cap) (x : α) : Decidable (r.Holds x) :=
  inferInstanceAs (Decidable (∃ i : Fin cap, i.val < r.count ∧ r.slots i = x))

def push [NeZero cap] (r : Recent α cap) (x : α) : Recent α cap where
  slots := Function.update r.slots r.next x
  count := min (r.count + 1) cap
  next := r.next + 1
  count_le := Nat.min_le_right _ _

/-- Reports a value that is held, and records one that is not. -/
def checkAndRecord [DecidableEq α] [NeZero cap] (r : Recent α cap) (x : α) : Bool × Recent α cap :=
  if r.Holds x then (true, r) else (false, r.push x)

/-! What the ring holds. -/

/-- The ring after a history of pushes, the newest first. -/
def ofHistory [Inhabited α] [NeZero cap] (h : List α) : Recent α cap :=
  h.foldr (fun x r => r.push x) empty

/-- Every value is missing from the `cap` values before it, newest first. -/
def Spaced (cap : Nat) (h : List α) : Prop := ∀ u x older, h = u ++ x :: older → x ∉ older.take cap

section
variable [Inhabited α] [NeZero cap]

@[simp] theorem ofHistory_cons (x : α) (h : List α) :
    (ofHistory (x :: h) : Recent α cap) = (ofHistory h).push x := rfl

theorem count_ofHistory (h : List α) : (ofHistory h : Recent α cap).count = min h.length cap := by
  induction h with
  | nil => simp [ofHistory, empty]
  | cons x h ih =>
    simp only [ofHistory_cons, push, ih, List.length_cons]
    omega

theorem next_ofHistory (h : List α) :
    ((ofHistory h : Recent α cap).next : Nat) = h.length % cap := by
  induction h with
  | nil => simp [ofHistory, empty]
  | cons x h ih => simp [push, Fin.val_add, ih, Nat.add_mod]

/-- The slot written by the push that `j` further pushes have followed. -/
def slotOf (cap n j : Nat) [NeZero cap] : Fin cap := Fin.ofNat cap (n - 1 - j)

theorem slots_ofHistory (h : List α) (j : Nat) (hj : j < h.length) (hcap : j < cap) :
    (ofHistory h : Recent α cap).slots (slotOf cap h.length j) = h[j] := by
  induction h generalizing j with
  | nil => exact absurd hj (by simp)
  | cons x h ih =>
    have hnext : (ofHistory h : Recent α cap).next = slotOf cap (h.length + 1) 0 :=
      Fin.ext (next_ofHistory h)
    simp only [ofHistory_cons, push, hnext, List.length_cons]
    cases j with
    | zero => rw [Function.update_self, List.getElem_cons_zero]
    | succ j =>
      rw [List.length_cons] at hj
      -- fewer than `cap` pushes apart, so the two slots differ
      have hne : slotOf cap (h.length + 1) (j + 1) ≠ slotOf cap (h.length + 1) 0 := by
        intro heq
        have hmod : h.length ≡ h.length - (j + 1) [MOD cap] := by
          simpa [slotOf, Nat.ModEq] using (congrArg Fin.val heq).symm
        have hdvd := (Nat.modEq_iff_dvd' (by omega)).mp hmod.symm
        have hle := Nat.le_of_dvd (by omega) hdvd
        omega
      have hsame : slotOf cap (h.length + 1) (j + 1) = slotOf cap h.length j :=
        congrArg (Fin.ofNat cap) (by omega)
      rw [Function.update_of_ne hne, List.getElem_cons_succ, hsame]
      exact ih j (by omega) (by omega)

/-- The ring holds the last `cap` values of its history. -/
theorem holds_ofHistory (h : List α) (x : α) :
    (ofHistory h : Recent α cap).Holds x ↔ x ∈ h.take cap := by
  have hcap : 0 < cap := Nat.pos_of_ne_zero (NeZero.ne cap)
  rw [List.mem_take_iff_getElem]
  constructor
  · rintro ⟨i, hi, rfl⟩
    rw [count_ofHistory] at hi
    -- the push that wrote slot `i` last
    have hj : (h.length - 1 - i) % cap < cap := Nat.mod_lt _ hcap
    have hle : (h.length - 1 - i) % cap ≤ h.length - 1 - i := Nat.mod_le _ _
    refine ⟨(h.length - 1 - i) % cap, by omega, ?_⟩
    rw [← slots_ofHistory h _ (by omega) hj]
    congr 1
    ext
    have hdiv := Nat.div_add_mod (h.length - 1 - i) cap
    have hback : h.length - 1 - (h.length - 1 - i) % cap
        = i + cap * ((h.length - 1 - i) / cap) := by omega
    simp only [slotOf, Fin.val_ofNat, hback, Nat.add_mul_mod_self_left]
    exact Nat.mod_eq_of_lt i.isLt
  · rintro ⟨j, hj, rfl⟩
    refine ⟨slotOf cap h.length j, ?_, slots_ofHistory h j (by omega) (by omega)⟩
    rw [count_ofHistory]
    have hlt : (h.length - 1 - j) % cap < cap := Nat.mod_lt _ hcap
    have hle : (h.length - 1 - j) % cap ≤ h.length - 1 - j := Nat.mod_le _ _
    simp only [slotOf, Fin.val_ofNat]
    omega

theorem checkAndRecord_ofHistory [DecidableEq α] (h : List α) (x : α) :
    (ofHistory h : Recent α cap).checkAndRecord x
      = if x ∈ h.take cap then (true, ofHistory h) else (false, ofHistory (x :: h)) := by
  simp only [checkAndRecord, holds_ofHistory, ofHistory_cons]

/-- A ring that was filled by pushes and holds none of the values. -/
def Misses (r : Recent α cap) (xs : List α) : Prop :=
  ∃ h, r = ofHistory h ∧ ∀ x ∈ xs, x ∉ h.take cap

theorem Misses.mono {r : Recent α cap} {xs ys : List α} (h : r.Misses xs) (hsub : ys ⊆ xs) :
    r.Misses ys := by
  obtain ⟨hist, rfl, hmiss⟩ := h
  exact ⟨hist, rfl, fun y hy => hmiss y (hsub hy)⟩

/-- The first of the values is recorded; the others are still missing. -/
theorem Misses.record [DecidableEq α] {r : Recent α cap} {x : α} {xs : List α}
    (h : r.Misses (x :: xs)) (hx : x ∉ xs) :
    ∃ r', r.checkAndRecord x = (false, r') ∧ r'.Holds x ∧ r'.Misses xs := by
  obtain ⟨hist, rfl, hmiss⟩ := h
  have hcap : 0 < cap := Nat.pos_of_ne_zero (NeZero.ne cap)
  refine ⟨ofHistory (x :: hist), ?_, ?_, x :: hist, rfl, fun y hy hmem => ?_⟩
  · rw [checkAndRecord_ofHistory, if_neg (hmiss x List.mem_cons_self)]
  · rw [holds_ofHistory, List.mem_take_iff_getElem]
    exact ⟨0, by simp [hcap], rfl⟩
  · have hsub : (x :: hist).take cap ⊆ x :: hist.take cap := by
      cases cap with
      | zero => simp
      | succ n =>
        rw [List.take_succ_cons]
        exact List.cons_subset_cons x (List.take_prefix_take_left (Nat.le_succ n)).subset
    rcases List.mem_cons.mp (hsub hmem) with rfl | hold
    · exact hx hy
    · exact hmiss y (List.mem_cons_of_mem x hy) hold

end

theorem Spaced.nil (cap : Nat) : Spaced cap ([] : List α) := by
  intro u x older h
  exact absurd h (by simp)

theorem Spaced.cons {cap : Nat} {h : List α} (hs : Spaced cap h) {x : α}
    (hx : x ∉ h.take cap) : Spaced cap (x :: h) := by
  intro u y older heq
  cases u with
  | nil =>
    obtain ⟨rfl, rfl⟩ := List.cons_eq_cons.mp heq
    exact hx
  | cons z u => exact hs u y older (List.cons_eq_cons.mp heq).2

theorem Spaced.of_append {cap : Nat} {h : List α} (u : List α) (x : α)
    (hs : Spaced cap (u ++ x :: h)) : Spaced cap h :=
  fun v y older heq => hs (u ++ x :: v) y older (by rw [heq, List.append_assoc, List.cons_append])

/-- What the ring holds is pairwise distinct. -/
theorem Spaced.nodup_take {cap : Nat} {h : List α} (hs : Spaced cap h) (n : Nat) (hn : n ≤ cap) :
    (h.take n).Nodup := by
  induction h generalizing n with
  | nil => simp
  | cons x h ih =>
    cases n with
    | zero => simp
    | succ n =>
      rw [List.take_succ_cons, List.nodup_cons]
      refine ⟨fun hmem => ?_, ih (hs.of_append [] x) n (by omega)⟩
      have hsub : h.take n <+: h.take cap := List.take_prefix_take_left (by omega)
      exact hs [] x h rfl (hsub.subset hmem)

/-- `x` was pushed after exactly `after` others. -/
def PushedAfter (h : List α) (x : α) (after : Nat) : Prop :=
  ∃ newer older, h = newer ++ x :: older ∧ older.length = after

theorem PushedAfter.cons {h : List α} {x : α} {after : Nat} (hp : PushedAfter h x after) (y : α) :
    PushedAfter (y :: h) x after := by
  obtain ⟨newer, older, rfl, hlen⟩ := hp
  exact ⟨y :: newer, older, rfl, hlen⟩

theorem PushedAfter.lt {h : List α} {x : α} {after : Nat} (hp : PushedAfter h x after) :
    after < h.length := by
  obtain ⟨newer, older, rfl, rfl⟩ := hp
  simp only [List.length_append, List.length_cons]
  omega

/-- Two pushes of one value have at least `cap` other values between them. -/
def Apart (cap : Nat) (h : List α) (x : α) (first second : Nat) : Prop :=
  ∃ newer others older, h = newer ++ x :: (others ++ older) ∧ (others ++ older).length = second ∧
    others.length = cap ∧ others.Nodup ∧ x ∉ others ∧ first < older.length

theorem Spaced.apart {cap : Nat} {h : List α} (hs : Spaced cap h) {x : α} {first second : Nat}
    (hfirst : PushedAfter h x first) (hsecond : PushedAfter h x second) (hlt : first < second) :
    Apart cap h x first second := by
  obtain ⟨newer₁, older₁, h₁, rfl⟩ := hfirst
  obtain ⟨newer, older, rfl, rfl⟩ := hsecond
  have hsuffix : x :: older₁ <:+ older := by
    have hall : x :: older₁ <:+ newer ++ x :: older := h₁ ▸ List.suffix_append _ _
    have hown : older <:+ newer ++ x :: older :=
      (List.suffix_cons x older).trans (List.suffix_append _ _)
    exact List.suffix_of_suffix_length_le hall hown hlt
  obtain ⟨between, rfl⟩ := hsuffix
  have hnew := hs newer x _ rfl
  -- the first push lies behind the `cap` values before the second
  have hcap : cap ≤ between.length := by
    by_contra hshort
    refine hnew ?_
    rw [List.take_append]
    refine List.mem_append_right _ ?_
    rw [show cap - between.length = (cap - between.length - 1) + 1 by omega]
    exact List.mem_cons_self
  have hlen : (between ++ x :: older₁).length = between.length + older₁.length + 1 := by
    simp only [List.length_append, List.length_cons]
    omega
  refine ⟨newer, (between ++ x :: older₁).take cap, (between ++ x :: older₁).drop cap, ?_, ?_, ?_,
    ?_, hnew, ?_⟩
  · rw [List.take_append_drop]
  · rw [List.take_append_drop]
  · rw [List.length_take]
    omega
  · exact (hs.of_append newer x).nodup_take cap le_rfl
  · rw [List.length_drop]
    omega

end Recent
