import AnonSecNet.Foundation.Machine

/-! A queue that is served one element at a time: when all the vital elements get through. -/
namespace AnonSecNet.Backlog
variable {κ : Type*} (vital : κ → Prop) [DecidablePred vital]

/-- An arrival, or a turn at which the head is served. -/
def step : List κ → Option κ → List κ
  | q, some k => q ++ [k]
  | q, none => q.tail

/-- The arrivals up to the last vital one. -/
def demand : List (Option κ) → Nat
  | [] => 0
  | none :: es => demand es
  | some k :: es => if vital k ∨ 0 < demand es then demand es + 1 else 0

def serves : List (Option κ) → Nat
  | [] => 0
  | none :: es => serves es + 1
  | some _ :: es => serves es

/-- From no moment on do more arrive up to the last vital one than are served. -/
def Kept (es : List (Option κ)) : Prop := ∀ v, v <:+ es → demand vital v ≤ serves v

theorem demand_le_cons (k : κ) (es : List (Option κ)) :
    demand vital es ≤ demand vital (some k :: es) := by
  change _ ≤ if vital k ∨ 0 < demand vital es then demand vital es + 1 else 0
  split
  · exact Nat.le_succ _
  · rename_i h
    exact Nat.le_of_not_lt fun hpos => h (.inr hpos)

/-- What stands in front of the queue only adds to the demand. -/
theorem demand_le_append (q : List κ) (es : List (Option κ)) :
    demand vital es ≤ demand vital (q.map some ++ es) := by
  induction q with
  | nil => exact Nat.le_refl _
  | cons k q ih => exact ih.trans (demand_le_cons vital k _)

theorem demand_append_serve (q : List κ) (es : List (Option κ)) :
    demand vital (q.map some ++ none :: es) = demand vital (q.map some ++ es) := by
  induction q with
  | nil => rfl
  | cons k q ih =>
    rw [List.map_cons, List.cons_append, List.cons_append, demand, demand, ih]

theorem demand_cons_le (k : κ) (es : List (Option κ)) (n : Nat) :
    demand vital (some k :: es) ≤ n + 1 ↔ demand vital es ≤ n := by
  change (if vital k ∨ 0 < demand vital es then demand vital es + 1 else 0) ≤ n + 1 ↔ _
  split
  · exact Nat.succ_le_succ_iff
  · rename_i h
    have hzero : demand vital es = 0 := Nat.eq_zero_of_not_pos fun hpos => h (.inr hpos)
    rw [hzero]
    exact iff_of_true (Nat.zero_le _) (Nat.zero_le _)

theorem demand_queue (q : List κ) : demand vital (q.map some) ≤ 0 ↔ ∀ k ∈ q, ¬ vital k := by
  induction q with
  | nil => simp [demand]
  | cons k q ih =>
    change (if vital k ∨ 0 < demand vital (q.map some) then _ else 0) ≤ 0 ↔ _
    rw [List.forall_mem_cons, ← ih]
    split
    · rename_i h
      refine iff_of_false (Nat.not_succ_le_zero _) fun hno => ?_
      exact h.elim hno.1 (Nat.not_lt.mpr hno.2)
    · rename_i h
      exact iff_of_true (Nat.le_refl 0)
        ⟨fun hk => h (.inl hk), Nat.le_of_not_lt fun hpos => h (.inr hpos)⟩

theorem kept_cons (e : Option κ) (es : List (Option κ)) :
    Kept vital (e :: es) ↔ Kept vital es ∧ demand vital (e :: es) ≤ serves (e :: es) := by
  constructor
  · intro h
    exact ⟨fun v hv => h v (hv.trans (List.suffix_cons _ _)), h _ (List.suffix_refl _)⟩
  · rintro ⟨hrest, hwhole⟩ v hv
    obtain rfl | hv := List.suffix_cons_iff.mp hv
    · exact hwhole
    · exact hrest v hv

/-- From the queue `q`: its elements count as the first arrivals. -/
theorem drained_from_iff (es : List (Option κ)) (q : List κ) :
    (∀ k ∈ Machine.run step es q, ¬ vital k) ↔
      Kept vital es ∧ demand vital (q.map some ++ es) ≤ serves es := by
  induction es generalizing q with
  | nil =>
    rw [List.append_nil]
    refine (demand_queue vital q).symm.trans (and_iff_right fun v hv => ?_).symm
    rw [List.suffix_nil.mp hv]
    exact Nat.le_refl 0
  | cons e es ih =>
    rw [kept_cons]
    cases e with
    | some k =>
      refine (ih (q ++ [k])).trans ?_
      rw [List.map_append, List.append_assoc]
      refine ⟨fun h => ⟨⟨h.1, ?_⟩, h.2⟩, fun h => ⟨h.1.1, h.2⟩⟩
      exact (demand_le_append vital q (some k :: es)).trans h.2
    | none =>
      refine (ih q.tail).trans ?_
      rw [demand_append_serve]
      have hserved : Kept vital es → demand vital (none :: es) ≤ serves (none :: es) :=
        fun h => Nat.le_succ_of_le (h es (List.suffix_refl _))
      cases q with
      | nil =>
        refine ⟨fun h => ⟨⟨h.1, hserved h.1⟩, hserved h.1⟩, fun h => ⟨h.1.1, ?_⟩⟩
        exact h.1.1 es (List.suffix_refl _)
      | cons k q =>
        have hhead := demand_cons_le vital k (q.map some ++ es) (serves es)
        exact ⟨fun h => ⟨⟨h.1, hserved h.1⟩, hhead.mpr h.2⟩,
          fun h => ⟨h.1.1, hhead.mp h.2⟩⟩

/-- From the empty queue every vital element gets through exactly if no backlog is ever too long
for what is still to be served. -/
theorem drained_iff (es : List (Option κ)) :
    (∀ k ∈ Machine.run step es [], ¬ vital k) ↔ Kept vital es := by
  rw [drained_from_iff]
  exact and_iff_left_of_imp fun h => h es (List.suffix_refl _)

end AnonSecNet.Backlog
