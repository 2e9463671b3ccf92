import Mathlib.Data.List.Basic

/-! A table of at most `cap` keys: a put replaces the value of a key that is there, appends
a new key while there is room, and fails otherwise. -/
namespace Keyed
variable {κ β : Type*} [DecidableEq κ] {cap : Nat}

/-- The first entry of `k` gets the value `v`. -/
def replace (k : κ) (v : β) : List (κ × β) → List (κ × β)
  | [] => []
  | e :: es => if e.1 = k then (k, v) :: es else e :: replace k v es

@[simp] theorem length_replace (k : κ) (v : β) (es : List (κ × β)) :
    (replace k v es).length = es.length := by
  induction es with
  | nil => rfl
  | cons e es ih =>
    unfold replace
    split <;> simp [ih]

theorem lookup_replace_self {k : κ} (v : β) {es : List (κ × β)} (h : (es.lookup k).isSome) :
    (replace k v es).lookup k = some v := by
  induction es with
  | nil => simp at h
  | cons e es ih =>
    unfold replace
    split
    · simp
    · rename_i hne
      rw [List.lookup_cons, beq_false_of_ne (Ne.symm hne)] at h ⊢
      exact ih h

theorem replace_eq_self_iff {k : κ} {v : β} {es : List (κ × β)} (h : (es.lookup k).isSome) :
    replace k v es = es ↔ es.lookup k = some v := by
  induction es with
  | nil => simp at h
  | cons e es ih =>
    obtain ⟨k', v'⟩ := e
    unfold replace
    split
    · rename_i heq
      obtain rfl : k' = k := heq
      simp [eq_comm]
    · rename_i hne
      rw [List.lookup_cons, beq_false_of_ne (Ne.symm hne)] at h ⊢
      simpa using ih h

theorem lookup_replace_of_ne {k k' : κ} (hk : k' ≠ k) (v : β) (es : List (κ × β)) :
    (replace k v es).lookup k' = es.lookup k' := by
  induction es with
  | nil => rfl
  | cons e es ih =>
    unfold replace
    split
    · rename_i he
      rw [List.lookup_cons, List.lookup_cons, he, beq_false_of_ne hk]
    · rw [List.lookup_cons, List.lookup_cons, ih]

/-! Tables whose entries are read off slots. -/

section
variable {ι : Type*} [DecidableEq ι]

omit [DecidableEq ι] in
theorem lookup_map (f : ι → κ × β) (slots : List ι) (k : κ) :
    (slots.map f).lookup k = (slots.find? fun i => (f i).1 = k).map fun i => (f i).2 := by
  induction slots with
  | nil => rfl
  | cons i slots ih =>
    rw [List.map_cons, List.lookup_cons, List.find?_cons]
    by_cases hk : (f i).1 = k
    · simp [hk]
    · rw [beq_false_of_ne (Ne.symm hk), decide_eq_false hk]
      exact ih

/-- Writing the first slot that holds `k`. -/
theorem replace_map (f : ι → κ × β) {slots : List ι} (hnodup : slots.Nodup) {k : κ} {i : ι}
    (h : slots.find? (fun i => (f i).1 = k) = some i) (v : β) :
    slots.map (Function.update f i (k, v)) = replace k v (slots.map f) := by
  induction slots with
  | nil => cases h
  | cons j slots ih =>
    obtain ⟨hj, hnodup⟩ := List.nodup_cons.mp hnodup
    have hi : (f i).1 = k := by simpa using List.find?_some h
    rw [List.find?_cons] at h
    rw [List.map_cons, List.map_cons]
    unfold replace
    by_cases hk : (f j).1 = k
    · rw [decide_eq_true hk] at h
      obtain rfl := Option.some.inj h
      rw [if_pos hk, Function.update_self]
      refine congrArg _ (List.map_congr_left fun x hx => Function.update_of_ne ?_ _ _)
      exact fun heq => hj (heq ▸ hx)
    · rw [decide_eq_false hk] at h
      have hne : j ≠ i := fun heq => hk (heq ▸ hi)
      rw [if_neg hk, Function.update_of_ne hne]
      exact congrArg _ (ih hnodup h)

end

@[ext] structure Store (κ β : Type*) (cap : Nat) where
  entries : List (κ × β)
  le_cap : entries.length ≤ cap

namespace Store

def empty : Store κ β cap := ⟨[], Nat.zero_le _⟩

def get (s : Store κ β cap) (k : κ) : Option β := s.entries.lookup k

/-- Room for `k`: it is there, or another key fits. -/
def Fits (s : Store κ β cap) (k : κ) : Prop := (s.get k).isSome ∨ s.entries.length < cap

instance (s : Store κ β cap) (k : κ) : Decidable (s.Fits k) := inferInstanceAs (Decidable (_ ∨ _))

/-- Whether the value was stored, and the store after it. -/
def put (s : Store κ β cap) (k : κ) (v : β) : Bool × Store κ β cap :=
  if (s.get k).isSome then
    (true, ⟨replace k v s.entries, by rw [length_replace]; exact s.le_cap⟩)
  else if h : s.entries.length < cap then
    (true, ⟨s.entries ++ [(k, v)], by rw [List.length_append]; exact h⟩)
  else (false, s)

theorem put_eq_true_iff {s : Store κ β cap} {k : κ} {v : β} :
    (s.put k v).1 = true ↔ s.Fits k := by
  unfold put Fits
  split
  · rename_i h
    simp [h]
  · rename_i h
    split
    · rename_i hroom
      simp [hroom]
    · rename_i hfull
      simp [h, hfull]

/-- A put that fails changes nothing. -/
theorem put_of_not_fits {s : Store κ β cap} {k : κ} {v : β} (h : ¬ s.Fits k) :
    s.put k v = (false, s) := by
  unfold put
  rw [if_neg fun hk => h (Or.inl hk), dif_neg fun hroom => h (Or.inr hroom)]

/-- A put changes nothing exactly if it fails or the value is there already. -/
theorem put_eq_self_iff {s : Store κ β cap} {k : κ} {v : β} :
    (s.put k v).2 = s ↔ ¬ s.Fits k ∨ s.get k = some v := by
  unfold put Fits
  split
  · rename_i hk
    have hentries : (⟨replace k v s.entries, by rw [length_replace]; exact s.le_cap⟩ :
        Store κ β cap) = s ↔ replace k v s.entries = s.entries := by
      cases s
      simp
    rw [hentries, replace_eq_self_iff hk, or_iff_right fun h => h (Or.inl hk)]
    rfl
  · rename_i hk
    split
    · rename_i hroom
      have hnone : s.get k ≠ some v := fun hget => hk (by rw [hget]; rfl)
      simp only [hroom, hnone, or_true, not_true, or_false, iff_false]
      intro heq
      have := congrArg (fun s : Store κ β cap => s.entries.length) heq
      simp at this
    · rename_i hfull
      simp [hk, hfull]

theorem get_put_self {s : Store κ β cap} {k : κ} {v : β} (h : s.Fits k) :
    (s.put k v).2.get k = some v := by
  unfold put
  split
  · rename_i hk
    exact lookup_replace_self v hk
  · rename_i hk
    rw [dif_pos (h.resolve_left hk)]
    have hnone : s.entries.lookup k = none := Option.not_isSome_iff_eq_none.mp hk
    simp [get, List.lookup_append, hnone]

theorem get_put_of_ne {s : Store κ β cap} {k k' : κ} (hk : k' ≠ k) (v : β) :
    (s.put k v).2.get k' = s.get k' := by
  unfold put
  split
  · exact lookup_replace_of_ne hk v s.entries
  · split
    · simp only [get]
      rw [List.lookup_append, List.lookup_cons, beq_false_of_ne hk]
      simp
    · rfl

theorem isSome_get_put (s : Store κ β cap) {k : κ} (h : (s.get k).isSome) (k' : κ) (v : β) :
    ((s.put k' v).2.get k).isSome := by
  by_cases hk : k = k'
  · subst hk
    rw [get_put_self (Or.inl h)]
    rfl
  · rw [get_put_of_ne hk]
    exact h

end Store
end Keyed
