import Mathlib.Data.Fintype.Card
import Mathlib.Data.List.Nodup
import Mathlib.Data.List.Perm.Subperm

/-! Queues threaded through one array of cells: a head and a tail for every key, and for every
cell the one behind it. The keys with a queue are listed, and the queues are emptied from the
front, the next key being picked from the list. Every lookup that could go wrong is partial. -/
namespace LinkedQueues
variable {κ ι : Type*}

structure Links (κ ι : Type*) where
  head : κ → Option ι
  tail : κ → Option ι
  next : ι → Option ι
  active : List κ

/-- No queues yet; what is in the array of links does not matter. -/
def Links.empty (next : ι → Option ι) : Links κ ι := ⟨fun _ => none, fun _ => none, next, []⟩

section
variable [DecidableEq κ] [DecidableEq ι]

/-- A cell is appended to the queue of its key. There is room for `cap` keys. -/
def push (cap : Nat) (key : ι → κ) (l : Links κ ι) (i : ι) : Option (Links κ ι) :=
  match l.head (key i) with
  | none =>
    if l.active.length < cap then
      some {
        head := Function.update l.head (key i) (some i)
        tail := Function.update l.tail (key i) (some i)
        next := Function.update l.next i none
        active := l.active ++ [key i] }
    else none
  | some _ =>
    (l.tail (key i)).map fun t =>
      { l with
        tail := Function.update l.tail (key i) (some i)
        next := Function.update (Function.update l.next i none) t (some i) }

/-- The keys that are left, the cell at the front of each queue, and what has been taken out. -/
structure Drain (κ ι : Type*) where
  cur : κ → Option ι
  active : List κ
  out : List ι

/-- The last one takes the place of the one that goes. -/
def swapRemove (l : List κ) (pick : Nat) : List κ :=
  match l.getLast? with
  | none => l
  | some last => (l.set pick last).dropLast

def takeFront (next : ι → Option ι) (pick : Nat) (d : Drain κ ι) : Option (Drain κ ι) :=
  d.active[pick]?.bind fun k =>
    (d.cur k).map fun i =>
      match next i with
      | none => { d with active := swapRemove d.active pick, out := d.out ++ [i] }
      | some j => { d with cur := Function.update d.cur k (some j), out := d.out ++ [i] }

/-- The `n`-th pick from a list of `len` keys is `pick n len`. -/
def drain (next : ι → Option ι) (pick : Nat → Nat → Nat) :
    Nat → Nat → Drain κ ι → Option (List ι)
  | 0, _, d => if d.active = [] then some d.out else none
  | fuel + 1, n, d =>
    if d.active = [] then some d.out
    else (takeFront next (pick n d.active.length) d).bind (drain next pick fuel (n + 1))

/-- The cells queue up in the order of the list, and are taken out as they are picked. -/
def shuffle (cap : Nat) (key : ι → κ) (stale : ι → Option ι) (pick : Nat → Nat → Nat) (fuel : Nat)
    (is : List ι) : Option (List ι) :=
  (is.foldlM (push cap key) (Links.empty stale)).bind fun l =>
    drain l.next pick fuel 0 ⟨l.head, l.active, []⟩

end

/-! Chains of cells, and the cells of one key. -/

/-- The cells from `start` on, up to the one with nothing behind it. -/
def Chain (next : ι → Option ι) : Option ι → List ι → Prop
  | start, [] => start = none
  | start, i :: is => start = some i ∧ Chain next (next i) is

def queue [DecidableEq κ] (key : ι → κ) (is : List ι) (k : κ) : List ι :=
  is.filter fun i => decide (key i = k)

theorem Chain.of_none {next : ι → Option ι} {is : List ι} (h : Chain next none is) : is = [] := by
  cases is with
  | nil => rfl
  | cons i is => exact nomatch h.1

theorem Chain.ne_nil {next : ι → Option ι} {i : ι} {is : List ι} (h : Chain next (some i) is) :
    is ≠ [] := by
  rintro rfl
  exact nomatch h

section
variable [DecidableEq κ]

theorem mem_queue {key : ι → κ} {is : List ι} {k : κ} {i : ι} :
    i ∈ queue key is k ↔ i ∈ is ∧ key i = k := by
  simp [queue]

theorem queue_concat_self (key : ι → κ) (is : List ι) (i : ι) :
    queue key (is ++ [i]) (key i) = queue key is (key i) ++ [i] := by
  simp [queue]

theorem queue_concat_of_ne {key : ι → κ} {k : κ} {i : ι} (h : k ≠ key i) (is : List ι) :
    queue key (is ++ [i]) k = queue key is k := by
  simp [queue, h.symm]

structure Built (key : ι → κ) (is : List ι) (l : Links κ ι) : Prop where
  chains : ∀ k, Chain l.next (l.head k) (queue key is k)
  tails : ∀ k, l.tail k = (queue key is k).getLast?
  active : ∀ k, k ∈ l.active ↔ queue key is k ≠ []
  nodup : l.active.Nodup

theorem Built.empty (key : ι → κ) (stale : ι → Option ι) : Built key [] (Links.empty stale) where
  chains _ := rfl
  tails _ := rfl
  active _ := by simp [Links.empty, queue]
  nodup := List.nodup_nil

end

variable [DecidableEq ι]

theorem Chain.update {next : ι → Option ι} {start : Option ι} {is : List ι} {j : ι} (hj : j ∉ is)
    (v : Option ι) (h : Chain next start is) : Chain (Function.update next j v) start is := by
  induction is generalizing start with
  | nil => exact h
  | cons i is ih =>
    refine ⟨h.1, ?_⟩
    rw [Function.update_of_ne fun heq : i = j => hj (heq ▸ List.mem_cons_self)]
    exact ih (fun hmem => hj (List.mem_cons_of_mem i hmem)) h.2

/-- A cell is linked behind the last one. -/
theorem Chain.concat {next : ι → Option ι} {start : Option ι} {is : List ι} {t i : ι}
    (hnodup : (is ++ [t]).Nodup) (hi : i ∉ is ++ [t]) (hend : next i = none)
    (h : Chain next start (is ++ [t])) :
    Chain (Function.update next t (some i)) start (is ++ [t] ++ [i]) := by
  have hit : i ≠ t := fun heq => hi (heq ▸ List.mem_concat_self)
  induction is generalizing start with
  | nil =>
    refine ⟨h.1, ?_⟩
    rw [Function.update_self]
    refine ⟨rfl, ?_⟩
    rw [Function.update_of_ne hit]
    exact hend
  | cons j is ih =>
    obtain ⟨hj, hnodup⟩ := List.nodup_cons.mp hnodup
    have hjt : j ≠ t := fun heq => hj (heq ▸ List.mem_concat_self)
    refine ⟨h.1, ?_⟩
    rw [Function.update_of_ne hjt]
    exact ih hnodup (fun hmem => hi (List.mem_cons_of_mem j hmem)) h.2

/-! Building the queues. -/

variable [DecidableEq κ]

theorem Built.step [Fintype κ] {cap : Nat} (hcap : Fintype.card κ ≤ cap) {key : ι → κ}
    {is : List ι} {l : Links κ ι} (h : Built key is l) {i : ι} (hnodup : is.Nodup) (hi : i ∉ is) :
    ∃ l', push cap key l i = some l' ∧ Built key (is ++ [i]) l' := by
  have hqueue : ∀ k, i ∉ queue key is k := fun k hmem => hi (mem_queue.mp hmem).1
  unfold push
  cases hhead : l.head (key i) with
  | none =>
    have hempty : queue key is (key i) = [] := (hhead ▸ h.chains (key i)).of_none
    have hfresh : key i ∉ l.active := fun hmem => (h.active _).mp hmem hempty
    have hnew : (l.active ++ [key i]).Nodup := by
      rw [List.nodup_append_comm]
      exact List.nodup_cons.mpr ⟨hfresh, h.nodup⟩
    have hroom : l.active.length < cap := by
      have hlen := hnew.length_le_card
      rw [List.length_append, List.length_singleton] at hlen
      omega
    dsimp only
    rw [if_pos hroom]
    refine ⟨_, rfl, ?_, ?_, ?_, hnew⟩
    · intro k
      by_cases hk : k = key i
      · subst hk
        rw [queue_concat_self, hempty]
        dsimp only
        rw [Function.update_self]
        exact ⟨rfl, Function.update_self _ _ _⟩
      · rw [queue_concat_of_ne hk]
        dsimp only
        rw [Function.update_of_ne hk]
        exact (h.chains k).update (hqueue k) none
    · intro k
      by_cases hk : k = key i
      · subst hk
        rw [queue_concat_self, List.getLast?_concat]
        exact Function.update_self _ _ _
      · rw [queue_concat_of_ne hk, ← h.tails]
        exact Function.update_of_ne hk _ _
    · intro k
      by_cases hk : k = key i
      · subst hk
        simp [queue_concat_self]
      · rw [queue_concat_of_ne hk, ← h.active]
        simp [hk]
  | some first =>
    have hne : queue key is (key i) ≠ [] := (hhead ▸ h.chains (key i)).ne_nil
    obtain ⟨q, t, hsplit⟩ := List.eq_nil_or_concat (queue key is (key i)) |>.resolve_left hne
    rw [List.concat_eq_append] at hsplit
    have htail : l.tail (key i) = some t := by rw [h.tails, hsplit, List.getLast?_concat]
    have ht : t ∈ queue key is (key i) := hsplit ▸ List.mem_concat_self
    dsimp only
    rw [htail, Option.map_some]
    refine ⟨_, rfl, ?_, ?_, ?_, h.nodup⟩
    · intro k
      have hframe := (h.chains k).update (hqueue k) none
      by_cases hk : k = key i
      · subst hk
        rw [queue_concat_self, hsplit]
        rw [hsplit] at hframe
        refine hframe.concat (hsplit ▸ hnodup.filter _) (hsplit ▸ hqueue (key i)) ?_
        exact Function.update_self _ _ _
      · rw [queue_concat_of_ne hk]
        refine hframe.update (fun hmem => hk ?_) _
        exact ((mem_queue.mp hmem).2).symm.trans (mem_queue.mp ht).2
    · intro k
      by_cases hk : k = key i
      · subst hk
        rw [queue_concat_self, List.getLast?_concat]
        exact Function.update_self _ _ _
      · rw [queue_concat_of_ne hk, ← h.tails]
        exact Function.update_of_ne hk _ _
    · intro k
      by_cases hk : k = key i
      · subst hk
        rw [queue_concat_self, h.active]
        simp [hne]
      · rw [queue_concat_of_ne hk, ← h.active]

theorem Built.steps [Fintype κ] {cap : Nat} (hcap : Fintype.card κ ≤ cap) {key : ι → κ}
    {is : List ι} {l : Links κ ι} (h : Built key is l) (js : List ι) (hnodup : (is ++ js).Nodup) :
    ∃ l', js.foldlM (push cap key) l = some l' ∧ Built key (is ++ js) l' := by
  induction js generalizing is l with
  | nil => exact ⟨l, rfl, by rwa [List.append_nil]⟩
  | cons j js ih =>
    rw [List.append_cons] at hnodup ⊢
    have hparts := (List.nodup_append.mp hnodup).1
    have hj : j ∉ is := fun hmem =>
      (List.nodup_append.mp hparts).2.2 j hmem j List.mem_cons_self rfl
    obtain ⟨l₁, hpush, hbuilt⟩ := h.step hcap (List.nodup_append.mp hparts).1 hj
    obtain ⟨l₂, hfold, hbuilt₂⟩ := ih hbuilt hnodup
    refine ⟨l₂, ?_, hbuilt₂⟩
    rw [List.foldlM_cons, hpush]
    exact hfold

/-! Emptying the queues. -/

omit [DecidableEq ι] [DecidableEq κ] in
theorem swapRemove_perm {l : List κ} {pick : Nat} (h : pick < l.length) :
    (l[pick] :: swapRemove l pick).Perm l := by
  obtain rfl | ⟨u, last, rfl⟩ := List.eq_nil_or_concat' l
  · cases h
  · simp only [swapRemove, List.getLast?_concat]
    by_cases hpick : pick < u.length
    · rw [List.getElem_append_left hpick, List.set_append_left _ _ hpick, List.dropLast_concat,
        List.set_eq_take_append_cons_drop, if_pos hpick]
      have hsplit : u = u.take pick ++ u[pick] :: u.drop (pick + 1) := by
        rw [List.getElem_cons_drop, List.take_append_drop]
      have hfront : (u[pick] :: (u.take pick ++ last :: u.drop (pick + 1))).Perm
          (u[pick] :: last :: (u.take pick ++ u.drop (pick + 1))) := List.perm_middle.cons _
      have hback : (u[pick] :: (u.take pick ++ u.drop (pick + 1))).Perm u := by
        nth_rewrite 4 [hsplit]
        exact List.perm_middle.symm
      exact hfront.trans ((List.Perm.swap _ _ _).trans
        ((hback.cons last).trans (List.perm_append_singleton last u).symm))
    · have hlast : pick = u.length := by
        rw [List.length_append, List.length_singleton] at h
        omega
      subst hlast
      rw [List.getElem_concat_length rfl, List.set_append_right _ _ le_rfl, Nat.sub_self,
        List.set_cons_zero, List.dropLast_concat]
      exact (List.perm_append_singleton last u).symm

/-- What is left of each queue. -/
structure Draining (key : ι → κ) (is : List ι) (next : ι → Option ι) (d : Drain κ ι)
    (rem : κ → List ι) : Prop where
  parts : ∀ k, queue key d.out k ++ rem k = queue key is k
  chains : ∀ k ∈ d.active, rem k ≠ [] ∧ Chain next (d.cur k) (rem k)
  done : ∀ k, k ∉ d.active → rem k = []
  nodup : d.active.Nodup

omit [DecidableEq ι] in
theorem Draining.step {key : ι → κ} {is : List ι} {next : ι → Option ι} {d : Drain κ ι}
    {rem : κ → List ι} (h : Draining key is next d rem) {pick : Nat}
    (hpick : pick < d.active.length) :
    ∃ d' rem', takeFront next pick d = some d' ∧ Draining key is next d' rem' ∧
      d'.out.length = d.out.length + 1 := by
  obtain ⟨hne, hchain⟩ := h.chains d.active[pick] (List.getElem_mem hpick)
  obtain ⟨i, rest, hrem⟩ := List.exists_cons_of_ne_nil hne
  rw [hrem] at hchain
  obtain ⟨hcur, hnext⟩ := hchain
  have hkey : key i = d.active[pick] := by
    have hmem : i ∈ queue key is d.active[pick] := by
      rw [← h.parts, hrem]
      exact List.mem_append_right _ List.mem_cons_self
    exact (mem_queue.mp hmem).2
  have hparts : ∀ k, queue key (d.out ++ [i]) k
      ++ Function.update rem d.active[pick] rest k = queue key is k := by
    intro k
    by_cases hk : k = d.active[pick]
    · subst hk
      rw [Function.update_self, ← hkey, queue_concat_self, List.append_assoc, hkey,
        List.singleton_append, ← hrem]
      exact h.parts _
    · rw [Function.update_of_ne hk, queue_concat_of_ne (hkey ▸ hk)]
      exact h.parts k
  unfold takeFront
  rw [List.getElem?_eq_getElem hpick, Option.bind_some, hcur, Option.map_some]
  cases hbehind : next i with
  | none =>
    rw [hbehind] at hnext
    have hperm := swapRemove_perm hpick
    have hnodup := hperm.nodup_iff.mpr h.nodup
    have hmem : ∀ k, k ∈ d.active ↔ k = d.active[pick] ∨ k ∈ swapRemove d.active pick := by
      intro k
      rw [← hperm.mem_iff, List.mem_cons]
    have hgone : d.active[pick] ∉ swapRemove d.active pick := (List.nodup_cons.mp hnodup).1
    refine ⟨_, Function.update rem d.active[pick] rest, rfl, ⟨hparts, ?_, ?_, ?_⟩, by simp⟩
    · intro k hk
      have hne : k ≠ d.active[pick] := fun heq => hgone (heq ▸ hk)
      rw [Function.update_of_ne hne]
      exact h.chains k ((hmem k).mpr (Or.inr hk))
    · intro k hk
      by_cases hkey : k = d.active[pick]
      · subst hkey
        rw [Function.update_self]
        exact hnext.of_none
      · rw [Function.update_of_ne hkey]
        exact h.done k fun hact => (((hmem k).mp hact).resolve_left hkey |> hk)
    · exact (List.nodup_cons.mp hnodup).2
  | some j =>
    rw [hbehind] at hnext
    refine ⟨_, Function.update rem d.active[pick] rest, rfl, ⟨hparts, ?_, ?_, h.nodup⟩, by simp⟩
    · intro k hk
      by_cases hkey : k = d.active[pick]
      · subst hkey
        dsimp only
        rw [Function.update_self, Function.update_self]
        exact ⟨hnext.ne_nil, hnext⟩
      · dsimp only
        rw [Function.update_of_ne hkey, Function.update_of_ne hkey]
        exact h.chains k hk
    · intro k hk
      have hne : k ≠ d.active[pick] := fun heq => hk (heq ▸ List.getElem_mem hpick)
      rw [Function.update_of_ne hne]
      exact h.done k hk

/-! Lists that agree in the queue of every key. -/

theorem count_queue (key : ι → κ) (is : List ι) (i : ι) :
    (queue key is (key i)).count i = is.count i := by
  unfold queue
  exact List.count_filter (by simp)

theorem perm_of_queues {key : ι → κ} {is js : List ι} (h : ∀ k, queue key is k = queue key js k) :
    is.Perm js := by
  rw [List.perm_iff_count]
  intro i
  rw [← count_queue key is, h, count_queue]

theorem Draining.length_lt {key : ι → κ} {is : List ι} {next : ι → Option ι} {d : Drain κ ι}
    {rem : κ → List ι} (h : Draining key is next d rem) (hactive : d.active ≠ []) :
    d.out.length < is.length := by
  obtain ⟨k, hk⟩ := List.exists_mem_of_ne_nil _ hactive
  have hsub : d.out.Subperm is := by
    rw [List.subperm_iff_count]
    intro i
    rw [← count_queue key d.out, ← count_queue key is, ← h.parts, List.count_append]
    exact Nat.le_add_right _ _
  refine lt_of_le_of_ne hsub.length_le fun hlen => (h.chains k hk).1 ?_
  have hperm := hsub.perm_of_length_le hlen.ge
  have hqueue := congrArg List.length (h.parts k)
  rw [List.length_append, queue, queue, (hperm.filter _).length_eq] at hqueue
  exact List.eq_nil_of_length_eq_zero (by omega)

/-- With enough fuel, and picks within the list, everything is taken out, each queue in its
order. -/
theorem Draining.drain {key : ι → κ} {is : List ι} {next : ι → Option ι} {pick : Nat → Nat → Nat}
    (hpick : ∀ n len, 0 < len → pick n len < len) {fuel n : Nat} {d : Drain κ ι} {rem : κ → List ι}
    (h : Draining key is next d rem) (hfuel : is.length ≤ d.out.length + fuel) :
    ∃ out, drain next pick fuel n d = some out ∧ ∀ k, queue key out k = queue key is k := by
  induction fuel generalizing n d rem with
  | zero =>
    have hactive : d.active = [] := by
      by_contra hne
      have hlt := h.length_lt hne
      omega
    refine ⟨d.out, if_pos hactive, fun k => ?_⟩
    rw [← h.parts, h.done k (by simp [hactive]), List.append_nil]
  | succ fuel ih =>
    by_cases hactive : d.active = []
    · refine ⟨d.out, if_pos hactive, fun k => ?_⟩
      rw [← h.parts, h.done k (by simp [hactive]), List.append_nil]
    · obtain ⟨d', rem', htake, h', hlen⟩ := h.step
        (hpick n d.active.length (List.length_pos_iff.mpr hactive))
      obtain ⟨out, hout, hqueues⟩ := ih h' (n := n + 1) (by omega)
      refine ⟨out, ?_, hqueues⟩
      rw [LinkedQueues.drain, if_neg hactive, htake]
      exact hout

/-- Every list is shuffled: nothing is lost or doubled, and the cells of a key keep their
order. -/
theorem shuffle_spec [Fintype κ] {cap : Nat} (hcap : Fintype.card κ ≤ cap) (key : ι → κ)
    (stale : ι → Option ι) {pick : Nat → Nat → Nat} (hpick : ∀ n len, 0 < len → pick n len < len)
    {is : List ι} (hnodup : is.Nodup) {fuel : Nat} (hfuel : is.length ≤ fuel) :
    ∃ out, shuffle cap key stale pick fuel is = some out ∧ out.Perm is ∧
      ∀ k, queue key out k = queue key is k := by
  obtain ⟨l, hbuild, hbuilt⟩ := (Built.empty key stale).steps hcap is hnodup
  rw [List.nil_append] at hbuilt
  have hdraining : Draining key is l.next ⟨l.head, l.active, []⟩ (queue key is) := {
    parts := fun _ => rfl
    chains := fun k hk => ⟨(hbuilt.active k).mp hk, hbuilt.chains k⟩
    done := fun k hk => by_contra fun hne => hk ((hbuilt.active k).mpr hne)
    nodup := hbuilt.nodup }
  obtain ⟨out, hout, hqueues⟩ := hdraining.drain hpick (n := 0) (by simpa using hfuel)
  refine ⟨out, ?_, perm_of_queues hqueues, hqueues⟩
  rw [shuffle, hbuild]
  exact hout

end LinkedQueues
