import AnonSecNet.Foundation.LinkedQueues
import Mathlib.Data.List.Dedup

/-! Which picks empty linked queues in a given order. -/
namespace LinkedQueues
variable {κ ι : Type*} [DecidableEq κ]

/-- How many keys have something in the list. -/
def keysLeft (key : ι → κ) (is : List ι) : Nat := (is.map key).dedup.length

variable {key : ι → κ} {is : List ι} {next : ι → Option ι} {d : Drain κ ι} {rem : κ → List ι}

theorem Draining.active_length {out : List ι} (h : Draining key is next d rem)
    (hmerge : ∀ k, queue key out k = rem k) : d.active.length = keysLeft key out := by
  have hmem : ∀ k, k ∈ d.active ↔ k ∈ (out.map key).dedup := by
    intro k
    rw [List.mem_dedup, List.mem_map]
    constructor
    · intro hk
      obtain ⟨i, hi⟩ := List.exists_mem_of_ne_nil _ (h.chains k hk).1
      rw [← hmerge] at hi
      exact ⟨i, mem_queue.mp hi⟩
    · intro hk
      by_contra hgone
      have hempty := h.done k hgone
      rw [← hmerge] at hempty
      obtain ⟨i, hi⟩ := hk
      exact List.not_mem_nil (hempty ▸ mem_queue.mpr hi)
  exact ((List.perm_ext_iff_of_nodup h.nodup (List.nodup_dedup _)).mpr hmem).length_eq

theorem Built.draining {l : Links κ ι} (h : Built key is l) :
    Draining key is l.next ⟨l.head, l.active, []⟩ (queue key is) where
  parts _ := rfl
  chains k hk := ⟨(h.active k).mp hk, h.chains k⟩
  done k hk := by_contra fun hne => hk ((h.active k).mpr hne)
  nodup := h.nodup

/-- The cell that is taken out is the first of what is left of its key. -/
theorem Draining.takes (h : Draining key is next d rem) {pick : Nat}
    (hpick : pick < d.active.length) :
    ∃ i d' rem', takeFront next pick d = some d' ∧ Draining key is next d' rem' ∧
      d'.out = d.out ++ [i] ∧ key i = d.active[pick] ∧ ∀ k, queue key [i] k ++ rem' k = rem k := by
  obtain ⟨hne, hchain⟩ := h.chains d.active[pick] (List.getElem_mem hpick)
  obtain ⟨i, rest, hrem⟩ := List.exists_cons_of_ne_nil hne
  rw [hrem] at hchain
  obtain ⟨d', rem', htake, h', -⟩ := h.step hpick
  have hout : d'.out = d.out ++ [i] := by
    unfold takeFront at htake
    rw [List.getElem?_eq_getElem hpick, Option.bind_some, hchain.1, Option.map_some] at htake
    obtain rfl := Option.some.inj htake
    cases next i <;> rfl
  have hkey : key i = d.active[pick] := by
    have hmem : i ∈ queue key is d.active[pick] := by
      rw [← h.parts, hrem]
      exact List.mem_append_right _ List.mem_cons_self
    exact (mem_queue.mp hmem).2
  refine ⟨i, d', rem', htake, h', hout, hkey, fun k => ?_⟩
  have hparts := (h'.parts k).trans (h.parts k).symm
  rw [hout, queue, List.filter_append, List.append_assoc] at hparts
  exact List.append_cancel_left hparts

theorem drain_prefix {pick : Nat → Nat → Nat} {fuel n : Nat} {d : Drain κ ι}
    {out : List ι} (h : drain next pick fuel n d = some out) : d.out <+: out := by
  induction fuel generalizing n d with
  | zero =>
    rw [drain] at h
    split at h
    · exact Option.some.inj h ▸ List.prefix_rfl
    · cases h
  | succ fuel ih =>
    rw [drain] at h
    split at h
    · exact Option.some.inj h ▸ List.prefix_rfl
    · obtain ⟨d', htake, hdrain⟩ := Option.bind_eq_some_iff.mp h
      have hout : d.out <+: d'.out := by
        unfold takeFront at htake
        obtain ⟨k, -, hk⟩ := Option.bind_eq_some_iff.mp htake
        obtain ⟨i, -, hi⟩ := Option.map_eq_some_iff.mp hk
        rw [← hi]
        cases next i <;> exact List.prefix_append _ _
      exact hout.trans (ih hdrain)

theorem queue_cons (key : ι → κ) (i : ι) (out : List ι) (k : κ) :
    queue key (i :: out) k = queue key [i] k ++ queue key out k :=
  List.filter_append [i] out

theorem queue_singleton_self (key : ι → κ) (i : ι) : queue key [i] (key i) = [i] := by
  simp [queue]

section
variable {i : ι} {out : List ι}

/-- The pick of the key whose cell comes first takes out this cell. -/
theorem Draining.takes_first (h : Draining key is next d rem)
    (hmerge : ∀ k, queue key (i :: out) k = rem k) :
    ∃ (p : Nat) (hp : p < d.active.length) (d' : Drain κ ι) (rem' : κ → List ι),
      d.active[p] = key i ∧ takeFront next p d = some d' ∧ Draining key is next d' rem' ∧
        d'.out = d.out ++ [i] ∧ ∀ k, queue key out k = rem' k := by
  have hmem : key i ∈ d.active := by
    by_contra hgone
    have hempty := h.done _ hgone
    rw [← hmerge, queue_cons, queue_singleton_self] at hempty
    cases hempty
  obtain ⟨p, hp, hget⟩ := List.getElem_of_mem hmem
  obtain ⟨j, d', rem', htake, h', hout, hkey, hrest⟩ := h.takes hp
  rw [hget] at hkey
  have hfirst : j = i := by
    have hqueue := (hrest (key i)).trans (hmerge (key i)).symm
    rw [queue_cons key i, queue_singleton_self, ← hkey, queue_singleton_self] at hqueue
    exact (List.cons.inj hqueue).1
  subst hfirst
  refine ⟨p, hp, d', rem', hget, htake, h', hout, fun k => ?_⟩
  have hqueue := (hmerge k).trans (hrest k).symm
  rw [queue_cons key j out] at hqueue
  exact List.append_cancel_left hqueue

/-- What comes out next is a cell of the key that is picked. -/
theorem pick_key (h : Draining key is next d rem) {pick : Nat → Nat → Nat} {fuel n p : Nat}
    (hp : p < d.active.length)
    (hdrain : (takeFront next p d).bind (drain next pick fuel n) = some (d.out ++ i :: out)) :
    d.active[p] = key i := by
  obtain ⟨j, d', rem', htake, -, hout, hkey, -⟩ := h.takes hp
  rw [htake, Option.bind_some] at hdrain
  obtain ⟨rest, hrest⟩ := drain_prefix hdrain
  rw [hout, List.append_assoc] at hrest
  obtain ⟨rfl, -⟩ := List.cons.inj (List.append_cancel_left hrest)
  exact hkey.symm

end

/-- There is one way to empty the queues in an order that keeps that of each: which pick it takes
at each cell depends on the cells alone, and how many keys it is from, on the rest of the order. -/
theorem drain_iff {out : List ι} (h : Draining key is next d rem)
    (hmerge : ∀ k, queue key out k = rem k) :
    ∃ pos : Nat → Nat, (∀ t < out.length, pos t < keysLeft key (out.drop t)) ∧
      ∀ pick : Nat → Nat → Nat, (∀ n len, 0 < len → pick n len < len) → ∀ fuel n,
        out.length ≤ fuel → (drain next pick fuel n d = some (d.out ++ out) ↔
          ∀ t < out.length, pick (n + t) (keysLeft key (out.drop t)) = pos t) := by
  induction out generalizing d rem with
  | nil =>
    have hactive : d.active = [] := List.eq_nil_of_length_eq_zero (h.active_length hmerge)
    refine ⟨id, fun t ht => absurd ht (Nat.not_lt_zero t), fun pick hpick fuel n hfuel => ?_⟩
    have hdrain : drain next pick fuel n d = some (d.out ++ []) := by
      rw [List.append_nil]
      cases fuel <;> exact if_pos hactive
    exact ⟨fun _ t ht => absurd ht (Nat.not_lt_zero t), fun _ => hdrain⟩
  | cons i out ih =>
    obtain ⟨p, hp, d', rem', hget, htake, h', hout, hmerge'⟩ := h.takes_first hmerge
    have hlen : d.active.length = keysLeft key (i :: out) := h.active_length hmerge
    obtain ⟨pos, hpos, hiff⟩ := ih h' hmerge'
    refine ⟨fun t => t.casesOn p pos, ?_, fun pick hpick fuel n hfuel => ?_⟩
    · rw [List.length_cons, Nat.forall_lt_succ_left]
      exact ⟨hlen ▸ hp, hpos⟩
    · cases fuel with
      | zero => exact absurd hfuel (Nat.not_succ_le_zero _)
      | succ fuel =>
        have hpos : 0 < d.active.length := Nat.zero_lt_of_lt hp
        rw [List.length_cons, Nat.forall_lt_succ_left, drain, if_neg (List.length_pos_iff.mp hpos),
          Nat.add_zero, List.drop_zero, ← hlen]
        by_cases hp' : pick n d.active.length = p
        · have hall := hiff pick hpick fuel (n + 1) (Nat.le_of_succ_le_succ hfuel)
          have hshift (t : Nat) : n + 1 + t = n + (t + 1) := by omega
          simp only [hshift] at hall
          rw [hout, List.append_assoc, List.singleton_append] at hall
          rw [hp', htake, Option.bind_some, hall]
          exact ⟨fun hall => ⟨hp', hall⟩, And.right⟩
        · constructor
          · intro hdrain
            have hsame := (pick_key h (hpick n _ hpos) hdrain).trans hget.symm
            exact absurd (h.nodup.getElem_inj_iff.mp hsame) hp'
          · intro hall
            exact absurd hall.1 hp'

/-- The picks that shuffle a list into an order that keeps that of each key. -/
theorem shuffle_iff [DecidableEq ι] [Fintype κ] {cap : Nat} (hcap : Fintype.card κ ≤ cap)
    (key : ι → κ) (stale : ι → Option ι) (hnodup : is.Nodup) {out : List ι}
    (hmerge : ∀ k, queue key out k = queue key is k) :
    ∃ pos : Nat → Nat, (∀ t < is.length, pos t < keysLeft key (out.drop t)) ∧
      ∀ pick : Nat → Nat → Nat, (∀ n len, 0 < len → pick n len < len) → ∀ fuel, is.length ≤ fuel →
        (shuffle cap key stale pick fuel is = some out ↔
          ∀ t < is.length, pick t (keysLeft key (out.drop t)) = pos t) := by
  obtain ⟨l, hbuild, hbuilt⟩ := (Built.empty key stale).steps hcap is hnodup
  rw [List.nil_append] at hbuilt
  rw [← (perm_of_queues hmerge).length_eq]
  obtain ⟨pos, hpos, hiff⟩ := drain_iff (hbuilt.draining) hmerge
  refine ⟨pos, hpos, fun pick hpick fuel hfuel => ?_⟩
  have hdrain := hiff pick hpick fuel 0 hfuel
  simp only [Nat.zero_add] at hdrain
  rw [← hdrain, shuffle, hbuild]
  rfl

end LinkedQueues
