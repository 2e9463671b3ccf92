import AnonSecNet.Foundation.Machine
import AnonSecNet.Foundation.Slots
import Mathlib.Data.List.Dedup
import Mathlib.Order.Interval.Finset.Nat

/-! A replay guard of two parts: a sliding window of counters in each of several domains,
and a ring of the stamps accepted last in all of them. -/
namespace ReplayGuard
variable {δ : Type*}

/-- Where the counters of a domain start, how many a window spans, how far it stays behind
the highest one matched, and how many stamps the ring holds. -/
structure Params (δ : Type*) where
  first : δ → Nat
  size : Nat
  margin : Nat
  cap : Nat

/-- The highest counter matched in each domain, and the stamps accepted, newest first. -/
structure Guard (δ : Type*) where
  mark : δ → Option Nat
  accepted : List (δ × Nat)

def Guard.initial : Guard δ := ⟨fun _ => none, []⟩

variable (p : Params δ)

def Guard.base (g : Guard δ) (d : δ) : Nat :=
  (g.mark d).elim (p.first d) fun m => max (p.first d) (m + 1 - p.margin)

def Guard.InWindow (g : Guard δ) (x : δ × Nat) : Prop :=
  g.base p x.1 ≤ x.2 ∧ x.2 < g.base p x.1 + p.size

def Guard.Accepts (g : Guard δ) (x : δ × Nat) : Prop :=
  g.InWindow p x ∧ x ∉ g.accepted.take p.cap

theorem lt_base_add {g : Guard δ} {d : δ} {m : Nat} (hm : g.mark d = some m) :
    m + 1 ≤ g.base p d + p.margin := by
  unfold Guard.base
  rw [hm, Option.elim_some]
  omega

/-- What every run keeps: the ring, the marks, and that a stamp is accepted only near or
above the earlier ones of its domain. -/
structure Ok (g : Guard δ) : Prop where
  spaced : Recent.Spaced p.cap g.accepted
  marked : ∀ y ∈ g.accepted, ∃ m, g.mark y.1 = some m ∧ y.2 ≤ m
  near : g.accepted.Pairwise fun later earlier =>
    later.1 = earlier.1 → earlier.2 + 1 ≤ later.2 + p.margin

theorem ok_initial : Ok p (Guard.initial : Guard δ) where
  spaced := Recent.Spaced.nil _
  marked := by simp [Guard.initial]
  near := by simp [Guard.initial]

/-- The first `n` stamps of a domain. -/
def consecutive (p : Params δ) (d : δ) (n : Nat) : List (δ × Nat) :=
  (List.range n).map fun k => (d, p.first d + k)

theorem consecutive_succ (d : δ) (n : Nat) : consecutive p d (n + 1)
    = consecutive p d n ++ [(d, p.first d + n)] := by
  simp [consecutive, List.range_succ]

variable [DecidableEq δ]

instance (g : Guard δ) (x : δ × Nat) : Decidable (g.InWindow p x) :=
  inferInstanceAs (Decidable (_ ∧ _))

instance (g : Guard δ) (x : δ × Nat) : Decidable (g.Accepts p x) :=
  inferInstanceAs (Decidable (_ ∧ _))

def Guard.raise (g : Guard δ) (x : δ × Nat) : δ → Option Nat :=
  Function.update g.mark x.1 (some ((g.mark x.1).elim x.2 (max x.2)))

/-- A stamp in its window raises the mark, also when the ring rejects it. -/
def Guard.offer (g : Guard δ) (x : δ × Nat) : Guard δ where
  mark := if g.InWindow p x then g.raise x else g.mark
  accepted := if g.Accepts p x then x :: g.accepted else g.accepted

/-! What every run keeps. -/

variable {p}

theorem le_raise {g : Guard δ} {d : δ} {m : Nat} (hm : g.mark d = some m) (x : δ × Nat) :
    ∃ m', g.raise x d = some m' ∧ m ≤ m' := by
  unfold Guard.raise
  by_cases hd : d = x.1
  · subst hd
    rw [Function.update_self, hm]
    exact ⟨_, rfl, le_max_right _ _⟩
  · rw [Function.update_of_ne hd]
    exact ⟨m, hm, le_rfl⟩

theorem self_le_raise (g : Guard δ) (x : δ × Nat) : ∃ m, g.raise x x.1 = some m ∧ x.2 ≤ m := by
  unfold Guard.raise
  rw [Function.update_self]
  cases g.mark x.1 with
  | none => exact ⟨_, rfl, le_rfl⟩
  | some m => exact ⟨_, rfl, le_max_left _ _⟩

theorem Ok.offer {g : Guard δ} (ok : Ok p g) (x : δ × Nat) : Ok p (g.offer p x) := by
  have hmark : ∀ y ∈ g.accepted, ∃ m, (g.offer p x).mark y.1 = some m ∧ y.2 ≤ m := by
    intro y hy
    obtain ⟨m, hm, hle⟩ := ok.marked y hy
    simp only [Guard.offer]
    split
    · obtain ⟨m', hm', hle'⟩ := le_raise hm x
      exact ⟨m', hm', hle.trans hle'⟩
    · exact ⟨m, hm, hle⟩
  by_cases hx : g.Accepts p x
  · have hacc : (g.offer p x).accepted = x :: g.accepted := if_pos hx
    constructor
    · rw [hacc]
      exact ok.spaced.cons hx.2
    · rw [hacc]
      intro y hy
      rcases List.mem_cons.mp hy with rfl | hy
      · simp only [Guard.offer, if_pos hx.1]
        exact self_le_raise g y
      · exact hmark y hy
    · rw [hacc, List.pairwise_cons]
      refine ⟨fun y hy hd => ?_, ok.near⟩
      -- the window has moved to within the margin of every stamp accepted before
      obtain ⟨m, hm, hle⟩ := ok.marked y hy
      have hbase := lt_base_add (p := p) hm
      have hin := hx.1.1
      rw [hd] at hin
      omega
  · have hacc : (g.offer p x).accepted = g.accepted := if_neg hx
    exact ⟨hacc ▸ ok.spaced, fun y hy => hmark y (hacc ▸ hy), hacc ▸ ok.near⟩

theorem Ok.run {g : Guard δ} (ok : Ok p g) (xs : List (δ × Nat)) :
    Ok p (Machine.run (Guard.offer p) xs g) := by
  induction xs generalizing g with
  | nil => exact ok
  | cons x xs ih => exact ih (ok.offer x)

/-- A run only adds stamps that it was offered. -/
theorem accepted_run (g : Guard δ) (xs : List (δ × Nat)) :
    ∃ newer, (Machine.run (Guard.offer p) xs g).accepted = newer ++ g.accepted ∧
      newer ⊆ xs := by
  induction xs generalizing g with
  | nil => exact ⟨[], rfl, List.Subset.refl _⟩
  | cons x xs ih =>
    obtain ⟨newer, hnewer, hsub⟩ := ih (g.offer p x)
    by_cases hx : g.Accepts p x
    · have hacc : (g.offer p x).accepted = x :: g.accepted := if_pos hx
      refine ⟨newer ++ [x], ?_, ?_⟩
      · rw [Machine.run, hnewer, hacc, List.append_assoc, List.singleton_append]
      · refine List.append_subset.mpr ⟨List.Subset.trans hsub (List.subset_cons_self x xs), ?_⟩
        exact List.cons_subset.mpr ⟨List.mem_cons_self, List.nil_subset _⟩
    · have hacc : (g.offer p x).accepted = g.accepted := if_neg hx
      exact ⟨newer, by rw [Machine.run, hnewer, hacc],
        List.Subset.trans hsub (List.subset_cons_self x xs)⟩

/-! Accepting one stamp twice. -/

/-- Few counters lie within a margin of one counter. -/
theorem length_within_margin {c margin : Nat} {l : List Nat} (hnd : l.Nodup)
    (hl : ∀ y ∈ l, y ≠ c ∧ c + 1 ≤ y + margin ∧ y + 1 ≤ c + margin) :
    l.length ≤ 2 * (margin - 1) := by
  have hsub : l.toFinset ⊆ (Finset.Icc (c + 1 - margin) (c + margin - 1)).erase c := by
    intro y hy
    obtain ⟨hne, hlow, hhigh⟩ := hl y (List.mem_toFinset.mp hy)
    exact Finset.mem_erase.mpr ⟨hne, Finset.mem_Icc.mpr ⟨by omega, by omega⟩⟩
  have hcard := Finset.card_le_card hsub
  rw [List.toFinset_card_of_nodup hnd] at hcard
  cases l with
  | nil => simp
  | cons y l =>
    obtain ⟨hne, hlow, hhigh⟩ := hl y List.mem_cons_self
    rw [Finset.card_erase_of_mem (Finset.mem_Icc.mpr ⟨by omega, by omega⟩), Nat.card_Icc] at hcard
    omega

/-- A stamp is accepted a second time only after many stamps of other domains: those of
its own domain that were accepted in between are all near it. -/
theorem accepted_twice {g : Guard δ} (ok : Ok p g) {x : δ × Nat} (xs : List (δ × Nat))
    (hfirst : g.Accepts p x)
    (hsecond : (Machine.run (Guard.offer p) (x :: xs) g).Accepts p x) :
    p.cap - 2 * (p.margin - 1) ≤ ((xs.filter fun y => y.1 ≠ x.1).dedup).length := by
  have okEnd := (ok.offer x).run xs
  obtain ⟨newer, hacc, hsub⟩ := accepted_run (p := p) (g.offer p x) xs
  have hx : (g.offer p x).accepted = x :: g.accepted := if_pos hfirst
  rw [hx] at hacc
  simp only [Machine.run] at hsecond
  obtain ⟨hin, hnew⟩ := hsecond
  rw [hacc] at hnew
  -- the ring is full of stamps accepted after the first copy
  have hcap : p.cap ≤ newer.length := by
    by_contra hshort
    refine hnew ?_
    rw [List.take_append]
    refine List.mem_append_right _ ?_
    rw [show p.cap - newer.length = (p.cap - newer.length - 1) + 1 by omega]
    exact List.mem_cons_self
  have hnd : (newer.take p.cap).Nodup := by
    have h := okEnd.spaced.nodup_take p.cap le_rfl
    rwa [hacc, List.take_append_of_le_length hcap] at h
  rw [List.take_append_of_le_length hcap] at hnew
  have hown : ((newer.take p.cap).filter fun y => y.1 = x.1).length ≤ 2 * (p.margin - 1) := by
    rw [← List.length_map (f := Prod.snd)]
    apply length_within_margin (c := x.2)
    · refine (List.nodup_map_iff_inj_on (hnd.filter _)).mpr fun y hy z hz hyz => ?_
      have hy1 : y.1 = x.1 := by simpa using (List.mem_filter.mp hy).2
      have hz1 : z.1 = x.1 := by simpa using (List.mem_filter.mp hz).2
      exact Prod.ext (hy1.trans hz1.symm) hyz
    · intro c hc
      obtain ⟨y, hy, rfl⟩ := List.mem_map.mp hc
      obtain ⟨hmem, hdom⟩ := List.mem_filter.mp hy
      have hdom : y.1 = x.1 := by simpa using hdom
      have hynewer := List.mem_of_mem_take hmem
      have hyacc : y ∈ (Machine.run (Guard.offer p) xs (g.offer p x)).accepted := by
        rw [hacc]
        exact List.mem_append_left _ hynewer
      refine ⟨fun hc => hnew (Prod.ext hdom hc ▸ hmem), ?_, ?_⟩
      · have hnear := okEnd.near
        rw [hacc] at hnear
        exact (List.pairwise_append.mp hnear).2.2 y hynewer x List.mem_cons_self hdom
      · obtain ⟨m, hm, hle⟩ := okEnd.marked y hyacc
        rw [hdom] at hm
        have hbase := lt_base_add (p := p) hm
        have hlow := hin.1
        omega
  have hothers : ((newer.take p.cap).filter fun y => y.1 ≠ x.1).length
      ≤ ((xs.filter fun y => y.1 ≠ x.1).dedup).length := by
    refine List.Subperm.length_le ((hnd.filter _).subperm fun y hy => ?_)
    obtain ⟨hmem, hdom⟩ := List.mem_filter.mp hy
    exact List.mem_dedup.mpr (List.mem_filter.mpr ⟨hsub (List.mem_of_mem_take hmem), hdom⟩)
  have hsplit := List.length_eq_length_filter_add (l := newer.take p.cap) fun y => y.1 = x.1
  rw [List.length_take, min_eq_left hcap] at hsplit
  simp only [decide_not] at hsplit hothers
  simp only [ne_eq, decide_not] at hothers ⊢
  omega

/-! The bound is about other domains alone: a ring full of them forgets a stamp whose own
window has not moved. -/

theorem run_consecutive (hsize : p.margin < p.size) {g : Guard δ} {d : δ}
    (hmark : g.mark d = none) (hnone : ∀ y ∈ g.accepted, y.1 ≠ d) (n : Nat) :
    (Machine.run (Guard.offer p) (consecutive p d n) g).mark
        = Function.update g.mark d (if n = 0 then none else some (p.first d + (n - 1))) ∧
      (Machine.run (Guard.offer p) (consecutive p d n) g).accepted
        = (consecutive p d n).reverse ++ g.accepted := by
  induction n with
  | zero =>
    rw [if_pos rfl, ← hmark, Function.update_eq_self]
    exact ⟨rfl, rfl⟩
  | succ n ih =>
    rw [consecutive_succ, Machine.run_append, List.reverse_append]
    generalize Machine.run (Guard.offer p) (consecutive p d n) g = h at ih
    obtain ⟨hm, hacc⟩ := ih
    have hin : h.InWindow p (d, p.first d + n) := by
      simp only [Guard.InWindow, Guard.base, hm, Function.update_self]
      split
      · simp only [Option.elim_none]
        omega
      · simp only [Option.elim_some]
        omega
    have hnew : (d, p.first d + n) ∉ h.accepted := by
      rw [hacc, List.mem_append, List.mem_reverse]
      rintro (hmem | hmem)
      · obtain ⟨k, hk, heq⟩ := List.mem_map.mp hmem
        have hlt := List.mem_range.mp hk
        have hkn := congrArg Prod.snd heq
        simp only at hkn
        omega
      · exact hnone _ hmem rfl
    have hx : h.Accepts p (d, p.first d + n) := ⟨hin, fun hmem => hnew (List.mem_of_mem_take hmem)⟩
    constructor
    · simp only [Machine.run, Guard.offer, if_pos hin, Guard.raise, hm, Function.update_self,
        Function.update_idem]
      rw [if_neg (Nat.succ_ne_zero n), Nat.add_sub_cancel]
      congr 2
      split
      · rfl
      · simp only [Option.elim_some]
        omega
    · simp only [Machine.run, Guard.offer, if_pos hx, hacc]
      rfl

/-- The first stamp of a domain is accepted again after `cap` stamps of another one. -/
theorem accepted_again (hsize : p.margin < p.size) (hmargin : 0 < p.margin) {d e : δ}
    (hde : d ≠ e) :
    (Guard.initial : Guard δ).Accepts p (d, p.first d) ∧
      (Machine.run (Guard.offer p) ((d, p.first d) :: consecutive p e p.cap)
        Guard.initial).Accepts p (d, p.first d) := by
  have hfirst : (Guard.initial : Guard δ).Accepts p (d, p.first d) := by
    refine ⟨⟨le_rfl, ?_⟩, by simp [Guard.initial]⟩
    simp only [Guard.base, Guard.initial, Option.elim_none]
    omega
  refine ⟨hfirst, ?_⟩
  have hmark : (Guard.initial.offer p (d, p.first d)).mark
      = Function.update (fun _ => none) d (some (p.first d)) := if_pos hfirst.1
  have hacc : (Guard.initial.offer p (d, p.first d)).accepted = [(d, p.first d)] :=
    if_pos hfirst
  obtain ⟨hm, hring⟩ := run_consecutive (g := Guard.initial.offer p (d, p.first d)) (d := e) hsize
    (by rw [hmark, Function.update_of_ne hde.symm])
    (by rw [hacc]; rintro y hy; rw [List.mem_singleton.mp hy]; exact hde) p.cap
  have hlen : (consecutive p e p.cap).reverse.length = p.cap := by simp [consecutive]
  constructor
  · simp only [Machine.run, Guard.InWindow, Guard.base, hm, hmark, Function.update_of_ne hde,
      Function.update_self, Option.elim_some]
    omega
  · rw [Machine.run, hring, List.take_left' hlen, List.mem_reverse]
    intro hmem
    obtain ⟨k, -, heq⟩ := List.mem_map.mp hmem
    exact hde (congrArg Prod.fst heq).symm

end ReplayGuard
