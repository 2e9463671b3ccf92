import AnonSecNet.Cache.Server

/-! A pending handshake of `cache_server.c` from INIT over RESPOND to POLL, with the connections
of others in between. -/
namespace AnonSecNet.Cache
open Octets
variable {s : CacheState}

/-- The handshake is the one that is found under its key. -/
def HoldsPending (s : CacheState) (p : PendingHandshake) : Prop :=
  ∃ i, pendingFind s p.key = some i ∧ s.pending i = p

/-- The connection is no handshake request for the key of `p`, and no INIT that comes so late
that it may take the slot. -/
def Connection.Spares (c : Connection) (p : PendingHandshake) : Prop :=
  ∀ f type, parseFrame c.inp = some f → RequestType.ofCode f.type = some type →
    type ∈ [RequestType.handshakeInit, .handshakePoll, .handshakeRespond] →
      f.key ≠ p.key ∧ ticksSince c.now p.createdMs ≤ pendingTtlMs

/-- The same, where a late POLL or RESPOND for another key is let through. -/
def Connection.Leaves (c : Connection) (key : CacheKey) (since : Nat) : Prop :=
  ∀ f type, parseFrame c.inp = some f → RequestType.ofCode f.type = some type →
    type ∈ [RequestType.handshakeInit, .handshakePoll, .handshakeRespond] →
      f.key ≠ key ∧ (type = .handshakeInit → ticksSince c.now since ≤ pendingTtlMs)

/-! The search. -/

@[simp] theorem pending_setPending_self (s : CacheState) (i : Fin maxPending)
    (q : PendingHandshake) : (s.setPending i q).pending i = q := Function.update_self ..

theorem pending_setPending_of_ne {i j : Fin maxPending} (h : i ≠ j) (q : PendingHandshake) :
    (s.setPending j q).pending i = s.pending i := Function.update_of_ne h ..

theorem pendingFind_eq_some {k : CacheKey} {i : Fin maxPending} (h : pendingFind s k = some i) :
    (s.pending i).inUse = true ∧ (s.pending i).key = k := by
  unfold pendingFind at h
  simpa using List.find?_some h

theorem pendingFind_eq_none {k : CacheKey} :
    pendingFind s k = none ↔ ∀ i, (s.pending i).inUse = true → (s.pending i).key ≠ k := by
  unfold pendingFind
  rw [List.find?_eq_none]
  constructor
  · intro h i huse hkey
    exact h i (List.mem_finRange i) (decide_eq_true ⟨huse, hkey⟩)
  · intro h i _ hmatch
    have hboth := of_decide_eq_true hmatch
    exact h i hboth.1 hboth.2

/-- Another slot is written, and not for the key. -/
theorem pendingFind_setPending_of_ne {k : CacheKey} {i j : Fin maxPending}
    {q : PendingHandshake} (h : pendingFind s k = some i) (hj : j ≠ i)
    (hq : q.key = k → q.inUse = false) : pendingFind (s.setPending j q) k = some i := by
  unfold pendingFind at h ⊢
  obtain ⟨hi, before, after, hsplit, hnone⟩ := List.find?_eq_some_iff_append.mp h
  refine List.find?_eq_some_iff_append.mpr ⟨?_, before, after, hsplit, fun a ha => ?_⟩
  · simpa [pending_setPending_of_ne hj.symm] using hi
  · by_cases haj : a = j
    · subst haj
      simp only [pending_setPending_self]
      cases hin : q.inUse with
      | false => simp
      | true =>
        have hkey : q.key ≠ k := fun heq => Bool.noConfusion (hin.symm.trans (hq heq))
        simp [hkey]
    · simpa [pending_setPending_of_ne haj] using hnone a ha

/-- The slot that was found, or any slot when none was, is written for the key. -/
theorem pendingFind_setPending_self {k : CacheKey} {i : Fin maxPending} {q : PendingHandshake}
    (h : ∀ j, pendingFind s k = some j → j = i) (hq : q.inUse = true ∧ q.key = k) :
    pendingFind (s.setPending i q) k = some i := by
  unfold pendingFind at h ⊢
  obtain ⟨before, after, hsplit⟩ := List.append_of_mem (List.mem_finRange i)
  have hfresh : i ∉ before := by
    have hnodup := List.nodup_finRange maxPending
    rw [hsplit, List.nodup_append] at hnodup
    exact fun hmem => hnodup.2.2 i hmem i List.mem_cons_self rfl
  have hnone : ∀ a ∈ before, ¬ decide ((s.pending a).inUse = true ∧ (s.pending a).key = k) := by
    intro a ha hmatch
    cases hfind : before.find? fun j => decide ((s.pending j).inUse = true ∧ (s.pending j).key = k)
      with
    | none => simpa [hmatch] using List.find?_eq_none.mp hfind a ha
    | some j =>
      have hj : j = i := h j (by rw [hsplit, List.find?_append, hfind]; rfl)
      exact hfresh (hj ▸ List.mem_of_find?_eq_some hfind)
  refine List.find?_eq_some_iff_append.mpr ⟨?_, before, after, hsplit, fun a ha => ?_⟩
  · simp [hq]
  · have hai : a ≠ i := fun heq => hfresh (heq ▸ ha)
    rw [pending_setPending_of_ne hai, Bool.not_eq_true', ← Bool.not_eq_true]
    exact hnone a ha

/-! One connection. -/

theorem HoldsPending.inUse {p : PendingHandshake} (h : HoldsPending s p) : p.inUse = true := by
  obtain ⟨i, hi, rfl⟩ := h
  exact (pendingFind_eq_some hi).1

/-- A write to another slot, under another key. -/
theorem HoldsPending.setPending {p q : PendingHandshake} {j : Fin maxPending}
    (h : HoldsPending s p) (hj : s.pending j ≠ p) (hq : q.key ≠ p.key) :
    HoldsPending (s.setPending j q) p := by
  obtain ⟨i, hi, hp⟩ := h
  have hne : j ≠ i := fun heq => hj (heq ▸ hp)
  refine ⟨i, pendingFind_setPending_of_ne hi hne fun heq => absurd heq hq, ?_⟩
  exact (pending_setPending_of_ne hne.symm q).trans hp

theorem pending_ne_of_find {p : PendingHandshake} {k : CacheKey} {j : Fin maxPending}
    (hj : pendingFind s k = some j) (hk : k ≠ p.key) : s.pending j ≠ p := by
  intro heq
  exact hk ((pendingFind_eq_some hj).2.symm.trans (congrArg PendingHandshake.key heq))

theorem pending_ne_of_free {p : PendingHandshake} (h : HoldsPending s p) {now : Nat}
    (hfresh : ticksSince now p.createdMs ≤ pendingTtlMs) {j : Fin maxPending}
    (hj : pendingFree s now = some j) : s.pending j ≠ p := by
  intro heq
  have hslot := List.find?_some hj
  rw [heq] at hslot
  simp only [h.inUse, Bool.true_eq_false, false_or, decide_eq_true_eq] at hslot
  omega

/-- Handshake requests for other keys write other slots. -/
theorem HoldsPending.serveFrame {p : PendingHandshake} {f : Frame} {now : Nat}
    (h : HoldsPending s p)
    (hf : ∀ type, RequestType.ofCode f.type = some type →
      type ∈ [RequestType.handshakeInit, .handshakePoll, .handshakeRespond] →
        f.key ≠ p.key ∧ (type = .handshakeInit → ticksSince now p.createdMs ≤ pendingTtlMs)) :
    HoldsPending (serveFrame s f now).2 p := by
  unfold Cache.serveFrame
  split
  · exact h
  · exact h
  · rename_i htype
    obtain ⟨hkey, hfresh⟩ := hf _ htype (by simp)
    unfold handleHandshakeInit
    split
    · split
      · exact h
      · rename_i j hslot
        have hne : s.pending j ≠ p := by
          cases hfind : pendingFind s f.key with
          | none =>
            rw [hfind, Option.none_or] at hslot
            exact pending_ne_of_free h (hfresh rfl) hslot
          | some j' =>
            rw [hfind, Option.some_or] at hslot
            obtain rfl := Option.some.inj hslot
            exact pending_ne_of_find hfind hkey
        exact h.setPending hne hkey
    · exact h
  · rename_i htype
    obtain ⟨hkey, -⟩ := hf _ htype (by simp)
    unfold handleHandshakePoll
    split
    · rename_i j hfind
      split
      · refine h.setPending (pending_ne_of_find hfind hkey) ?_
        exact fun heq => hkey ((pendingFind_eq_some hfind).2.symm.trans heq)
      · exact h
    · exact h
  · exact h
  · rename_i htype
    obtain ⟨hkey, -⟩ := hf _ htype (by simp)
    unfold handleHandshakeRespond
    split
    · split
      · rename_i j hfind
        refine h.setPending (pending_ne_of_find hfind hkey) ?_
        exact fun heq => hkey ((pendingFind_eq_some hfind).2.symm.trans heq)
      · exact h
    · exact h
  · exact h

theorem HoldsPending.serve {p : PendingHandshake} {c : Connection} (h : HoldsPending s p)
    (hc : c.Leaves p.key p.createdMs) : HoldsPending (serve s c) p := by
  unfold Cache.serve handleConnection
  split
  · rename_i f hf
    exact h.serveFrame fun type htype hmem => hc f type hf htype hmem
  · exact h

theorem Connection.Spares.leaves {p : PendingHandshake} {c : Connection} (hc : c.Spares p) :
    c.Leaves p.key p.createdMs := fun f type hf htype hmem =>
  ⟨(hc f type hf htype hmem).1, fun _ => (hc f type hf htype hmem).2⟩

/-- A handshake stays as it is while nobody asks for it. -/
theorem HoldsPending.run {p : PendingHandshake} {cs : List Connection}
    (hcs : ∀ c ∈ cs, c.Spares p) (h : HoldsPending s p) :
    HoldsPending (Machine.run Cache.serve cs s) p := by
  induction cs generalizing s with
  | nil => exact h
  | cons c cs ih =>
    have hnext := h.serve (hcs c List.mem_cons_self).leaves
    exact ih (fun c' hc' => hcs c' (List.mem_cons_of_mem _ hc')) hnext

/-! The three requests for its own key. -/

/-- INIT, when a slot is found. -/
theorem handleHandshakeInit_holds {k : CacheKey} {data : Content} {now : Nat}
    (hdata : data.1.length = ecPubkeyLen)
    (hslot : ((pendingFind s k).or (pendingFree s now)).isSome) :
    ∃ p : PendingHandshake, (handleHandshakeInit s k data now).1 = ackReply true ∧
      HoldsPending (handleHandshakeInit s k data now).2 p ∧ p.key = k ∧
      p.rEphemeralPub.toList = data.1 ∧ p.ready = false ∧ p.createdMs = now := by
  obtain ⟨i, hi⟩ := Option.isSome_iff_exists.mp hslot
  unfold handleHandshakeInit
  rw [dif_pos hdata, hi]
  refine ⟨_, rfl, ⟨i, pendingFind_setPending_self ?_ ⟨rfl, rfl⟩, Function.update_self ..⟩,
    rfl, rfl, rfl, rfl⟩
  intro j hj
  rw [hj, Option.some_or] at hi
  exact Option.some.inj hi

theorem handleHandshakeRespond_holds {p : PendingHandshake} (h : HoldsPending s p)
    {data : Content} (hdata : ecPubkeyLen + 2 ≤ data.1.length ∧ data.1.length ≤ maxRespData) :
    HoldsPending (handleHandshakeRespond s p.key data).2
      { p with respData := ⟨data.1, hdata.2⟩, ready := true } := by
  obtain ⟨i, hi, hp⟩ := h
  unfold handleHandshakeRespond
  rw [dif_pos hdata, hi]
  refine ⟨i, pendingFind_setPending_self ?_ ?_, ?_⟩
  · intro j hj
    exact Option.some.inj (hj.symm.trans hi)
  · rw [hp]
    exact ⟨(hp ▸ (pendingFind_eq_some hi).1), rfl⟩
  · rw [pending_setPending_self, hp]

theorem handleHandshakePoll_waiting {p : PendingHandshake} (h : HoldsPending s p)
    (hready : p.ready = false) : handleHandshakePoll s p.key = ([0x00], s) := by
  obtain ⟨i, hi, hp⟩ := h
  unfold handleHandshakePoll
  rw [hi]
  simp [hp, hready]

theorem handleHandshakePoll_ready {p : PendingHandshake} (h : HoldsPending s p)
    (hready : p.ready = true) : (handleHandshakePoll s p.key).1 = 0x01 :: p.respData.1 := by
  obtain ⟨i, hi, hp⟩ := h
  unfold handleHandshakePoll
  rw [hi]
  simp [hp, hready]

end AnonSecNet.Cache
