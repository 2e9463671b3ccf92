import AnonSecNet.Foundation.Keyed
import Mathlib.Data.Finmap

/-! Partial maps of at most `cap` keys, and the tables that implement them. -/

structure BoundedMap (κ β : Type*) (cap : Nat) where
  map : Finmap fun _ : κ => β
  le_cap : map.keys.card ≤ cap

namespace BoundedMap
variable {κ β : Type*} {cap : Nat}

def empty : BoundedMap κ β cap := ⟨∅, by simp⟩

variable [DecidableEq κ]

def get (m : BoundedMap κ β cap) (k : κ) : Option β := m.map.lookup k

/-- Room for `k`: it is a key already, or one more fits. -/
def Fits (m : BoundedMap κ β cap) (k : κ) : Prop := k ∈ m.map.keys ∨ m.map.keys.card < cap

instance (m : BoundedMap κ β cap) (k : κ) : Decidable (m.Fits k) :=
  inferInstanceAs (Decidable (_ ∨ _))

theorem keys_insert (m : Finmap fun _ : κ => β) (k : κ) (v : β) :
    (m.insert k v).keys = insert k m.keys := by
  ext k'
  simp only [Finmap.mem_keys, Finmap.mem_insert, Finset.mem_insert]

theorem card_keys_insert {m : BoundedMap κ β cap} {k : κ} (h : m.Fits k) (v : β) :
    (m.map.insert k v).keys.card ≤ cap := by
  rw [keys_insert]
  rcases h with h | h
  · rw [Finset.insert_eq_self.mpr h]
    exact m.le_cap
  · exact (Finset.card_insert_le _ _).trans h

/-- Whether the value was stored, and the map after it: a put that finds no room changes
nothing. -/
def put (m : BoundedMap κ β cap) (k : κ) (v : β) : Bool × BoundedMap κ β cap :=
  if h : m.Fits k then (true, ⟨m.map.insert k v, card_keys_insert h v⟩) else (false, m)

theorem get_put (m : BoundedMap κ β cap) (k : κ) (v : β) (k' : κ) :
    (m.put k v).2.get k' = if (m.put k v).1 = true ∧ k' = k then some v else m.get k' := by
  unfold put get
  split
  · by_cases hk : k' = k
    · subst hk
      simp
    · simp [hk, Finmap.lookup_insert_of_ne]
  · simp

end BoundedMap

namespace Keyed
variable {κ β : Type*} [DecidableEq κ] {cap : Nat}

theorem keys_replace {k : κ} {v : β} (es : List (κ × β)) :
    (replace k v es).map Prod.fst = es.map Prod.fst := by
  induction es with
  | nil => rfl
  | cons e es ih =>
    unfold replace
    split
    · rename_i hk
      simp [hk]
    · simp [ih]

theorem isSome_lookup_iff {k : κ} {es : List (κ × β)} :
    (es.lookup k).isSome ↔ k ∈ es.map Prod.fst := by
  induction es with
  | nil => simp
  | cons e es ih =>
    rw [List.lookup_cons, List.map_cons, List.mem_cons]
    by_cases hk : k = e.1
    · simp [hk]
    · rw [beq_false_of_ne hk, or_iff_right hk]
      exact ih

/-- The table holds each key of the map once, with its value. -/
structure Store.Implements (s : Store κ β cap) (m : BoundedMap κ β cap) : Prop where
  nodup : (s.entries.map Prod.fst).Nodup
  get : ∀ k, s.get k = m.get k

namespace Store.Implements
variable {s : Store κ β cap} {m : BoundedMap κ β cap}

theorem keys (h : s.Implements m) : m.map.keys = (s.entries.map Prod.fst).toFinset := by
  ext k
  rw [Finmap.mem_keys, ← Finmap.lookup_isSome, List.mem_toFinset, ← isSome_lookup_iff]
  exact (congrArg Option.isSome (h.get k)).symm ▸ Iff.rfl

theorem card (h : s.Implements m) : m.map.keys.card = s.entries.length := by
  rw [h.keys, List.toFinset_card_of_nodup h.nodup, List.length_map]

theorem fits_iff (h : s.Implements m) (k : κ) : s.Fits k ↔ m.Fits k := by
  unfold Store.Fits BoundedMap.Fits
  rw [h.card, h.keys, List.mem_toFinset, ← isSome_lookup_iff]
  rfl

theorem empty : (Store.empty : Store κ β cap).Implements BoundedMap.empty :=
  ⟨List.nodup_nil, fun _ => rfl⟩

/-- A put does to the table what it does to the map. -/
theorem put (h : s.Implements m) (k : κ) (v : β) :
    (s.put k v).1 = (m.put k v).1 ∧ (s.put k v).2.Implements (m.put k v).2 := by
  have hdone : (s.put k v).1 = true ↔ (m.put k v).1 = true := by
    rw [put_eq_true_iff, h.fits_iff]
    unfold BoundedMap.put
    split <;> simp [*]
  have hbool : (s.put k v).1 = (m.put k v).1 := Bool.eq_iff_iff.mpr hdone
  refine ⟨hbool, ?_, fun k' => ?_⟩
  · unfold Store.put
    split
    · rw [keys_replace]
      exact h.nodup
    · rename_i hnew
      split
      · rw [List.map_append, List.map_singleton]
        refine h.nodup.append (List.nodup_singleton k) ?_
        rw [List.disjoint_singleton]
        exact fun hmem => hnew (isSome_lookup_iff.mpr hmem)
      · exact h.nodup
  · rw [BoundedMap.get_put, ← hbool]
    by_cases hfits : s.Fits k
    · rw [put_eq_true_iff.mpr hfits]
      by_cases hk : k' = k
      · rw [hk, if_pos ⟨rfl, rfl⟩, get_put_self hfits]
      · rw [if_neg fun hc => hk hc.2, get_put_of_ne hk, h.get]
    · rw [put_of_not_fits hfits, if_neg fun hc => absurd hc.1 (by simp), h.get]

end Store.Implements
end Keyed
