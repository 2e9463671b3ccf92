import AnonSecNet.MixNode.Threads

/-! When `hint_high_water` is the largest counter confirmed, over every interleaving of
the handler threads. -/
namespace AnonSecNet.MixNode
open Octets
variable (P : Primitives)

/-! One hint state against the counters confirmed in it. -/

def mark (log : List Nat) : Nat := log.max?.getD noHighWater

/-- The hint state agrees with the counters confirmed since the slot was allocated. -/
structure HintOk (h : HintState) (log : Domain → List Nat) : Prop where
  marks : ∀ d, h.hintHighWater d = mark (log d)
  window : ∀ d w, h.hintWindow d w = packetDeriveHopHint P h.hintSeed (h.hintBase d + w)
  base : ∀ d, h.hintBase d =
    if h.hintHighWater d = noHighWater then d.first
    else max d.first (h.hintHighWater d - (hintSafetyMargin - 1))
  bounded : ∀ d, ∀ c ∈ log d, c < 2 ^ 63

/-- The counter is at most the high-water mark, which is set. -/
def AtMostMark (h : HintState) (d : Domain) (c : Nat) : Prop :=
  h.hintHighWater d ≠ noHighWater ∧ c ≤ h.hintHighWater d

/-- The stored window offset still lies at the packet's own counter, or neither that
counter nor the one it lies at now is above the mark. -/
def OffsetSafe (h : HintState) (th : Thread) : Prop :=
  (th.found.domain = th.domain ∧ h.hintBase th.found.domain + th.found.windowIdx = th.counter) ∨
  (AtMostMark h th.found.domain (h.hintBase th.found.domain + th.found.windowIdx) ∧
    AtMostMark h th.domain th.counter)

theorem raiseHighWater_none (x : Nat) : raiseHighWater noHighWater x = x := by
  simp [raiseHighWater]

theorem raiseHighWater_set {m : Nat} (hm : m ≠ noHighWater) (x : Nat) :
    raiseHighWater m x = max m x := by
  unfold raiseHighWater
  split
  · rename_i h
    have hlt : m < x := h.resolve_left hm
    omega
  · rename_i h
    have hle : ¬ m < x := fun hlt => h (Or.inr hlt)
    omega

theorem mark_lt {log : List Nat} (hlog : ∀ c ∈ log, c < 2 ^ 63) :
    mark log = noHighWater ∨ mark log < 2 ^ 63 := by
  unfold mark
  cases hmax : log.max? with
  | none => exact Or.inl rfl
  | some m => exact Or.inr (hlog m (List.max?_mem hmax))

/-- Confirming one more counter raises the mark by the rule the source uses. -/
theorem mark_cons {log : List Nat} (hlog : ∀ c ∈ log, c < 2 ^ 63) (c : Nat) :
    mark (c :: log) = raiseHighWater (mark log) c := by
  unfold mark
  rw [List.max?_cons]
  cases hmax : log.max? with
  | none => simp [raiseHighWater_none]
  | some m =>
    have hm : m < 2 ^ 63 := hlog m (List.max?_mem hmax)
    have hne : m ≠ noHighWater := by unfold noHighWater; omega
    simp only [Option.elim_some, Option.getD_some]
    rw [raiseHighWater_set hne, max_comm]

theorem HintOk.mark_bound {h : HintState} {log : Domain → List Nat} (ok : HintOk P h log)
    (d : Domain) : h.hintHighWater d = noHighWater ∨ h.hintHighWater d < 2 ^ 63 := by
  rw [ok.marks d]
  exact mark_lt (ok.bounded d)

theorem HintOk.base_lt {h : HintState} {log : Domain → List Nat} (ok : HintOk P h log)
    (d : Domain) : h.hintBase d ≤ 2 ^ 63 := by
  have hbase := ok.base d
  have hfirst := first_le d
  split at hbase
  · omega
  · have hmark := (ok.mark_bound P d).resolve_left ‹_›
    omega

/-- The sum of base and offset does not wrap. -/
theorem HintOk.matched_eq {h : HintState} {log : Domain → List Nat} (ok : HintOk P h log)
    (d : Domain) (w : Fin hintWindow) : h.matchedAbs d w = h.hintBase d + w := by
  have hbase := ok.base_lt P d
  have hw : w.val < 64 := w.isLt
  unfold HintState.matchedAbs
  omega

theorem HintOk.matched_ne {h : HintState} {log : Domain → List Nat} (ok : HintOk P h log)
    (d : Domain) (w : Fin hintWindow) : h.matchedAbs d w ≠ noHighWater := by
  have hbase := ok.base_lt P d
  have hw : w.val < 64 := w.isLt
  rw [ok.matched_eq P d w]
  unfold noHighWater
  omega

/-- Raising leaves a mark alone exactly when the counter is at most the mark. -/
theorem raise_eq_self {h : HintState} {d : Domain} {x : Nat} (hx : x ≠ noHighWater) :
    raiseHighWater (h.hintHighWater d) x = h.hintHighWater d ↔ AtMostMark h d x := by
  unfold AtMostMark
  by_cases hnone : h.hintHighWater d = noHighWater
  · rw [hnone, raiseHighWater_none]
    simp [hx]
  · rw [raiseHighWater_set hnone]
    simp [hnone]

theorem raise_eq_raise {h : HintState} {d : Domain} {x c : Nat} :
    raiseHighWater (h.hintHighWater d) x = raiseHighWater (h.hintHighWater d) c ↔
      x = c ∨ (AtMostMark h d x ∧ AtMostMark h d c) := by
  unfold AtMostMark
  by_cases hnone : h.hintHighWater d = noHighWater
  · simp [hnone, raiseHighWater_none]
  · rw [raiseHighWater_set hnone, raiseHighWater_set hnone]
    simp only [hnone, ne_eq, not_false_eq_true, true_and]
    omega

/-- The two outcomes of an advance: only the mark is raised, or the window slides too. -/
theorem advance_cases (h : HintState) (d : Domain) (w m : Nat)
    (hm : raiseHighWater (h.hintHighWater d) (h.matchedAbs d w) = m) :
    (desiredBase m ≤ h.hintBase d ∧ sessionAdvanceHintWindow P h d w =
      { h with hintHighWater := Function.update h.hintHighWater d m }) ∨
    (h.hintBase d < desiredBase m ∧ sessionAdvanceHintWindow P h d w =
      { h with
        hintHighWater := Function.update h.hintHighWater d m
        hintBase := Function.update h.hintBase d (desiredBase m)
        hintWindow := Function.update h.hintWindow d
          fun v => packetDeriveHopHint P h.hintSeed (desiredBase m + v) }) := by
  subst hm
  dsimp only [sessionAdvanceHintWindow]
  split
  · rename_i hle
    exact Or.inl ⟨hle, rfl⟩
  · rename_i hgt
    exact Or.inr ⟨by omega, rfl⟩

theorem hintHighWater_advance (h : HintState) (d : Domain) (w : Nat) :
    (sessionAdvanceHintWindow P h d w).hintHighWater
      = Function.update h.hintHighWater d
          (raiseHighWater (h.hintHighWater d) (h.matchedAbs d w)) := by
  obtain ⟨-, hadv⟩ | ⟨-, hadv⟩ := advance_cases P h d w _ rfl <;> rw [hadv]

theorem hintSeed_advance (h : HintState) (d : Domain) (w : Nat) :
    (sessionAdvanceHintWindow P h d w).hintSeed = h.hintSeed := by
  obtain ⟨-, hadv⟩ | ⟨-, hadv⟩ := advance_cases P h d w _ rfl <;> rw [hadv]

theorem hintBase_advance (h : HintState) (d : Domain) (w : Nat) :
    (sessionAdvanceHintWindow P h d w).hintBase = Function.update h.hintBase d
      (max (h.hintBase d)
        (desiredBase (raiseHighWater (h.hintHighWater d) (h.matchedAbs d w)))) := by
  obtain ⟨hle, hadv⟩ | ⟨hlt, hadv⟩ := advance_cases P h d w _ rfl
  · rw [hadv, max_eq_left hle, Function.update_eq_self]
  · rw [hadv, max_eq_right (Nat.le_of_lt hlt)]

theorem window_advance {h : HintState} (d : Domain) (w : Nat)
    (hwin : ∀ e v, h.hintWindow e v = packetDeriveHopHint P h.hintSeed (h.hintBase e + v))
    (e : Domain) (v : Fin hintWindow) :
    (sessionAdvanceHintWindow P h d w).hintWindow e v
      = packetDeriveHopHint P h.hintSeed ((sessionAdvanceHintWindow P h d w).hintBase e + v) := by
  obtain ⟨-, hadv⟩ | ⟨-, hadv⟩ := advance_cases P h d w _ rfl
  · rw [hadv]
    exact hwin e v
  · rw [hadv]
    by_cases he : e = d
    · subst he
      simp
    · simp [he, hwin e v]

/-- The marks stay exact in a confirmation exactly when the offset is safe. -/
theorem marks_advance_iff {h : HintState} {log : Domain → List Nat} (ok : HintOk P h log)
    {th : Thread} (hc : th.counter < 2 ^ 63) :
    (∀ d, (sessionAdvanceHintWindow P h th.found.domain th.found.windowIdx).hintHighWater d
        = mark (Function.update log th.domain (th.counter :: log th.domain) d)) ↔
      OffsetSafe h th := by
  have hx := ok.matched_ne P th.found.domain th.found.windowIdx
  have hcne : th.counter ≠ noHighWater := by unfold noHighWater; omega
  have hcons := mark_cons (ok.bounded th.domain) th.counter
  rw [← ok.marks] at hcons
  rw [hintHighWater_advance]
  unfold OffsetSafe
  rw [← ok.matched_eq P th.found.domain th.found.windowIdx]
  by_cases hd : th.found.domain = th.domain
  · rw [hd] at hx ⊢
    constructor
    · intro hall
      have h0 := hall th.domain
      rw [Function.update_self, Function.update_self, hcons, raise_eq_raise] at h0
      rcases h0 with h0 | h0
      · exact Or.inl ⟨rfl, h0⟩
      · exact Or.inr h0
    · intro hsafe d
      by_cases hdd : d = th.domain
      · subst hdd
        rw [Function.update_self, Function.update_self, hcons, raise_eq_raise]
        rcases hsafe with h0 | h0
        · exact Or.inl h0.2
        · exact Or.inr h0
      · rw [Function.update_of_ne hdd, Function.update_of_ne hdd, ok.marks]
  · constructor
    · intro hall
      have h1 := hall th.found.domain
      have h2 := hall th.domain
      rw [Function.update_self, Function.update_of_ne hd, ← ok.marks, raise_eq_self hx] at h1
      rw [Function.update_of_ne (Ne.symm hd), Function.update_self, hcons, eq_comm,
        raise_eq_self hcne] at h2
      exact Or.inr ⟨h1, h2⟩
    · intro hsafe d
      obtain ⟨h1, h2⟩ := hsafe.resolve_left fun h0 => hd h0.1
      by_cases hdf : d = th.found.domain
      · subst hdf
        rw [Function.update_self, Function.update_of_ne hd, ← ok.marks, raise_eq_self hx]
        exact h1
      · rw [Function.update_of_ne hdf]
        by_cases hdd : d = th.domain
        · subst hdd
          rw [Function.update_self, hcons, eq_comm, raise_eq_self hcne]
          exact h2
        · rw [Function.update_of_ne hdd, ok.marks]

theorem desiredBase_eq (m : Nat) : desiredBase m = m - (hintSafetyMargin - 1) := by
  unfold desiredBase
  split <;> simp_all <;> omega

/-- A confirmation with a safe offset keeps the hint state in agreement with the log. -/
theorem HintOk.advance {h : HintState} {log : Domain → List Nat} (ok : HintOk P h log)
    {th : Thread} (hc : th.counter < 2 ^ 63) (hsafe : OffsetSafe h th) :
    HintOk P (sessionAdvanceHintWindow P h th.found.domain th.found.windowIdx)
      (Function.update log th.domain (th.counter :: log th.domain)) where
  marks := (marks_advance_iff P ok hc).mpr hsafe
  window d w := by
    rw [window_advance P _ _ ok.window, hintSeed_advance]
  base d := by
    have hx := ok.matched_ne P th.found.domain th.found.windowIdx
    have hbase := ok.base d
    rw [hintBase_advance, hintHighWater_advance]
    by_cases hd : d = th.found.domain
    · subst hd
      rw [Function.update_self, Function.update_self, desiredBase_eq]
      by_cases hnone : h.hintHighWater th.found.domain = noHighWater
      · rw [hnone, raiseHighWater_none, if_neg hx, hbase, if_pos hnone]
      · have hmark := (ok.mark_bound P th.found.domain).resolve_left hnone
        rw [raiseHighWater_set hnone, hbase, if_neg hnone]
        rw [if_neg (by unfold noHighWater at hx ⊢; omega)]
        omega
    · rw [Function.update_of_ne hd, Function.update_of_ne hd, hbase]
  bounded d c hmem := by
    by_cases hd : d = th.domain
    · subst hd
      rw [Function.update_self] at hmem
      rcases List.mem_cons.mp hmem with rfl | hmem
      · exact hc
      · exact ok.bounded _ c hmem
    · rw [Function.update_of_ne hd] at hmem
      exact ok.bounded _ c hmem

theorem HintOk.init (seed : AesKey) :
    HintOk P (sessionInitHintWindow P seed) (fun _ => []) where
  marks _ := rfl
  window _ _ := rfl
  base _ := by simp [sessionInitHintWindow]
  bounded _ _ hmem := by simp at hmem

/-- A genuine packet that is late by less than the safety margin is still in the window. -/
theorem HintOk.late {h : HintState} {log : Domain → List Nat} (ok : HintOk P h log)
    {d : Domain} {hint : Hint} {c m : Nat} (hgen : Genuine P h hint d c)
    (hmax : (log d).max? = some m) (hle : c ≤ m) (hlate : m ≤ c + (hintSafetyMargin - 1)) :
    ∃ w, h.hintWindow d w = hint := by
  have hmark : h.hintHighWater d = m := by rw [ok.marks d, mark, hmax, Option.getD_some]
  have hm : m < 2 ^ 63 := ok.bounded d m (List.max?_mem hmax)
  have hbase := ok.base d
  rw [hmark, if_neg (by unfold noHighWater; omega)] at hbase
  have hfirst := hgen.2.1
  simp only [hintSafetyMargin] at hbase hlate
  have hoff : c - h.hintBase d < hintWindow := by
    unfold hintWindow
    omega
  have hsum : h.hintBase d + (c - h.hintBase d) = c := by omega
  refine ⟨⟨c - h.hintBase d, hoff⟩, ?_⟩
  rw [ok.window, hgen.1, hsum]

/-! Over runs of the node. -/

/-- Every high-water mark is the largest counter confirmed in its domain. -/
def MarksExact (s : NodeState) : Prop :=
  ∀ i, (s.table i).inUse = true → ∀ d, (s.table i).hintHighWater d = mark (s.log i d)

/-- Genuine packets that are late by less than the safety margin are still found, in
their own session unless an earlier one has the same hint in its windows. -/
def LatePacketsFound (s : NodeState) : Prop :=
  ∀ i d m c hint now, (s.table i).inUse = true → (s.log i d).max? = some m →
    Genuine P (s.table i).toHintState hint d c → c ≤ m → m ≤ c + (hintSafetyMargin - 1) →
    ∃ f, (sessionFind s.table hint now).1 = some f ∧
      ((∀ j < i, foundAt s.table hint j = none) → f.idx = i)

/-- Every confirmation this action makes has a safe offset. -/
def ConfirmsSafely (s : NodeState) (a : NodeAct) : Prop :=
  ∀ th, Confirms s a th → OffsetSafe (s.table th.found.idx).toHintState th

structure NodeInv (s : NodeState) : Prop where
  hints : ∀ i h, hintView s.table i = some h → HintOk P h (s.log i)
  counters : CountersBounded s

theorem hintView_of_inUse {t : Table} {i : Fin maxSessions} (h : (t i).inUse = true) :
    hintView t i = some (t i).toHintState := if_pos h

theorem NodeInv.marksExact {s : NodeState} (inv : NodeInv P s) : MarksExact s :=
  fun i huse d => (inv.hints i _ (hintView_of_inUse huse)).marks d

theorem NodeInv.latePacketsFound {s : NodeState} (inv : NodeInv P s) : LatePacketsFound P s := by
  intro i d m c hint now huse hmax hgen hle hlate
  obtain ⟨w, hw⟩ := (inv.hints i _ (hintView_of_inUse huse)).late P hgen hmax hle hlate
  exact sessionFind_of_window now huse hw

theorem NodeInv.initial : NodeInv P NodeState.initial where
  hints i h hview := by simp [hintView, NodeState.initial, zeroEntry] at hview
  counters th hth := by simp [NodeState.initial] at hth

theorem NodeInv.step {s : NodeState} (inv : NodeInv P s) (a : NodeAct)
    (hsafe : ConfirmsSafely s a) : NodeInv P (nodeStep P s a) where
  counters := countersBounded_step P inv.counters a
  hints i h hview := by
    cases nodeStep_effect P s a with
    | quiet idle view log =>
      rw [view] at hview
      rw [log]
      exact inv.hints i h hview
    | fresh idle j seed view log =>
      rw [view] at hview
      rw [log]
      by_cases hij : i = j
      · subst hij
        rw [Function.update_self] at hview ⊢
        cases hview
        exact HintOk.init P seed
      · rw [Function.update_of_ne hij] at hview ⊢
        exact inv.hints i h hview
    | confirmed th conf view log =>
      rw [view] at hview
      rw [log]
      by_cases hij : i = th.found.idx
      · subst hij
        rw [Function.update_self] at hview ⊢
        cases hview
        obtain ⟨k, -, hk, -, hsame⟩ := id conf
        exact (inv.hints _ _ (hintView_of_inUse hsame.1)).advance P
          (inv.counters th (List.mem_of_getElem? hk)) (hsafe th conf)
      · rw [Function.update_of_ne hij] at hview ⊢
        exact inv.hints i h hview

/-- A confirmation that leaves the marks exact had a safe offset. -/
theorem NodeInv.safe_of_exact {s : NodeState} (inv : NodeInv P s) (a : NodeAct)
    (hexact : MarksExact (nodeStep P s a)) : ConfirmsSafely s a := by
  intro th conf
  cases nodeStep_effect P s a with
  | quiet idle view log => exact absurd conf (idle th)
  | fresh idle j seed view log => exact absurd conf (idle th)
  | confirmed th' conf' view log =>
    obtain rfl := conf.unique conf'
    obtain ⟨k, -, hk, -, hsame⟩ := id conf
    have ok := inv.hints _ _ (hintView_of_inUse hsame.1)
    refine (marks_advance_iff P ok (inv.counters th (List.mem_of_getElem? hk))).mp fun d => ?_
    have hview := congrFun view th.found.idx
    rw [Function.update_self] at hview
    have huse : ((nodeStep P s a).table th.found.idx).inUse = true := by
      by_contra hno
      rw [hintView, if_neg hno] at hview
      cases hview
    have hmark := hexact th.found.idx huse d
    rw [hintView, if_pos huse] at hview
    rw [Option.some.inj hview, log, Function.update_self] at hmark
    exact hmark

/-- In every run of the node, the high-water marks are exact in every state, and late
packets are found, exactly if every confirmation has a safe offset. -/
theorem hint_high_water_exact_iff (acts : List NodeAct) :
    Machine.Along (nodeStep P) (fun s => MarksExact s ∧ LatePacketsFound P s) acts
        NodeState.initial ↔
      Machine.StepsMeet (nodeStep P) ConfirmsSafely acts NodeState.initial :=
  Machine.along_iff_stepsMeet (nodeStep P) (NodeInv P)
    (fun _ inv => ⟨inv.marksExact P, inv.latePacketsFound P⟩)
    (fun _ a inv hsafe => inv.step P a hsafe)
    (fun _ a inv hP => inv.safe_of_exact P a hP.1)
    (NodeInv.initial P)

/-- Two threads find packets 40 and 41 of one session before either confirms. -/
def driftRun : List NodeAct :=
  let receive (counter : Nat) : NodeAct :=
    .receive .data
      ((packetSphinxBuild .sample .sample [] pktReal counter (.sample counter)).getD (Bytes.zero _))
      (Bytes.zero _) 0 .real counter
  [.extend (sampleMaster 0) sessionRoleA 0, receive 40, receive 41, .confirm 1, .confirm 0]

def driftEnd : NodeState := Machine.run (nodeStep .sample) driftRun NodeState.initial

/-- Confirming 41 and then 40 leaves the mark at 50. -/
theorem hint_high_water_drifts :
    ((driftEnd.table 0).inUse = true ∧ (driftEnd.table 0).hintHighWater .real = 50 ∧
      driftEnd.log 0 .real = [40, 41]) ∧
    ¬ Machine.Along (nodeStep .sample) (fun s => MarksExact s ∧ LatePacketsFound .sample s)
        driftRun NodeState.initial := by
  have hend : (driftEnd.table 0).inUse = true ∧ (driftEnd.table 0).hintHighWater .real = 50 ∧
      driftEnd.log 0 .real = [40, 41] := by decide +kernel
  refine ⟨hend, fun h => ?_⟩
  obtain ⟨huse, hmark, hlog⟩ := hend
  have hexact : (driftEnd.table 0).hintHighWater .real = mark (driftEnd.log 0 .real) :=
    h.last.1 0 huse .real
  rw [hmark, hlog] at hexact
  revert hexact
  decide

end AnonSecNet.MixNode
