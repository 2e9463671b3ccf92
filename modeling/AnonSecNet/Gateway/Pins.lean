import AnonSecNet.Foundation.Machine
import AnonSecNet.Foundation.Tally
import AnonSecNet.Gateway.ThreadSteps

/-! The reference counts of the sessions under the threads that pin them. -/
namespace AnonSecNet.Gateway
open Octets Machine
variable (P : Primitives)

def pinsOf (s : SgState) (i : Fin maxSessions) : Nat :=
  Tally.total (fun st => st.pins.count i) s.threads

/-! What the operations do to reference counts and identities. -/

/-- A write that keeps a field of its slot keeps it everywhere. -/
theorem update_keeps {α : Type*} (field : SgSession → α) {t : Table} {a i : Fin maxSessions}
    {sess : SgSession} (h : field sess = field (t a)) :
    field (Function.update t a sess i) = field (t i) := by
  by_cases hi : i = a
  · subst hi
    rw [Function.update_self, h]
  · rw [Function.update_of_ne hi]

theorem identity_pin (t : Table) (a i : Fin maxSessions) :
    identity (pin t a i) = identity (t i) := update_keeps identity rfl

theorem inFlight_pin (t : Table) (a i : Fin maxSessions) :
    (pin t a i).inFlight = (t i).inFlight + [a].count i := by
  unfold pin
  by_cases hi : i = a
  · subst hi
    simp
  · rw [Function.update_of_ne hi, List.count_singleton, if_neg (by simpa using Ne.symm hi),
      Nat.add_zero]

theorem unpins_spec (released : List (Fin maxSessions)) (t : Table) (i : Fin maxSessions) :
    identity (released.foldl unpin t i) = identity (t i) ∧
      (released.foldl unpin t i).inFlight = (t i).inFlight - released.count i := by
  induction released generalizing t with
  | nil => exact ⟨rfl, rfl⟩
  | cons a released ih =>
    obtain ⟨hid, hcount⟩ := ih (unpin t a)
    refine ⟨hid.trans (update_keeps identity rfl), ?_⟩
    rw [List.foldl_cons, hcount, List.count_cons]
    unfold unpin
    by_cases hi : i = a
    · subst hi
      simp only [Function.update_self, beq_self_eq_true, if_true]
      omega
    · rw [Function.update_of_ne hi, if_neg (by simpa using Ne.symm hi), Nat.add_zero]

theorem sendResponse_keeps (t : Table) (a : Fin maxSessions) (reqHdr : ReturnHeader)
    (resp : List UInt8) (now : Nat) (i : Fin maxSessions) :
    identity (sendResponse t a reqHdr resp now i) = identity (t i) ∧
      (sendResponse t a reqHdr resp now i).inFlight = (t i).inFlight := by
  unfold sendResponse
  split
  · exact ⟨rfl, rfl⟩
  · exact ⟨update_keeps identity rfl, update_keeps SgSession.inFlight rfl⟩

/-! One step of a thread. -/

theorem Moves.identity {t t' : Table} {now : Nat} {st st' : Stage} (h : Moves P t now st t' st')
    (i : Fin maxSessions) : identity (t' i) = identity (t i) := by
  cases h with
  | keeps quiet pins inHand => rfl
  | stores a sess quiet pins inHand same => exact update_keeps Gateway.identity same.identity
  | accepts pkt c cs payload flags live accepted =>
    exact (identity_pin _ _ i).trans (update_keeps Gateway.identity rfl)
  | pins a b quiet live before after inHand => exact identity_pin t b i
  | pops a b payload e rest pending => exact update_keeps Gateway.identity rfl
  | flushes a e rest live pending waited =>
    exact (identity_pin _ _ i).trans (update_keeps Gateway.identity rfl)
  | queues a b reqHdr resp => exact (sendResponse_keeps t a reqHdr resp now i).1
  | writes a b out e => rfl
  | drops a e => rfl
  | unpins released quiet pins alone before after => exact (unpins_spec released t i).1

theorem pins_returnTo (a b : Fin maxSessions) (out : Outgoing) :
    (out.returnTo a b).pins = [a, b] := by
  cases out <;> rfl

/-- The count of a session and the pins of the thread change together. -/
theorem Moves.inFlight {t t' : Table} {now : Nat} {st st' : Stage} (h : Moves P t now st t' st')
    {i : Fin maxSessions} (hle : st.pins.count i ≤ (t i).inFlight) :
    (t' i).inFlight + st.pins.count i = (t i).inFlight + st'.pins.count i := by
  cases h with
  | keeps quiet pins inHand => rw [pins]
  | stores a sess quiet pins inHand same => rw [pins, update_keeps SgSession.inFlight same.inFlight]
  | accepts pkt c cs payload flags live accepted =>
    have hstamp := @update_keeps _ SgSession.inFlight t c.1 i { t c.1 with lastActiveMs := now } rfl
    rw [inFlight_pin, hstamp]
    rfl
  | pins a b quiet live before after inHand =>
    have hcons : ([a] ++ [b]).count i = [a].count i + [b].count i := List.count_append
    change [a, b].count i = _ at hcons
    rw [inFlight_pin, before, after, hcons]
    omega
  | pops a b payload e rest pending =>
    have hpop := @update_keeps _ SgSession.inFlight t a i { t a with pending := rest } rfl
    rw [hpop]
    rfl
  | flushes a e rest live pending waited =>
    have hpop := @update_keeps _ SgSession.inFlight t a i { t a with pending := rest } rfl
    rw [inFlight_pin, hpop]
    rfl
  | queues a b reqHdr resp =>
    rw [(sendResponse_keeps t a reqHdr resp now i).2]
    rfl
  | writes a b out e =>
    rw [pins_returnTo]
    rfl
  | drops a e => rfl
  | unpins released quiet pins alone before after =>
    have hpins := pins i
    rw [(unpins_spec released t i).2]
    omega

theorem Moves.live {t t' : Table} {now : Nat} {st st' : Stage} (h : Moves P t now st t' st')
    {i : Fin maxSessions} (hi : 0 < st'.pins.count i) :
    0 < st.pins.count i ∨ (t i).inUse = true := by
  cases h with
  | keeps quiet pins inHand => exact Or.inl (pins ▸ hi)
  | stores a sess quiet pins inHand same => exact Or.inl (pins ▸ hi)
  | accepts pkt c cs payload flags live accepted =>
    have hmem := List.count_pos_iff.mp hi
    rw [List.mem_singleton.mp hmem]
    exact Or.inr live
  | pins a b quiet live before after inHand =>
    rw [after] at hi
    obtain rfl | hmem := List.mem_cons.mp (List.count_pos_iff.mp hi)
    · left
      rw [before, List.count_singleton_self]
      exact Nat.one_pos
    · rw [List.mem_singleton.mp hmem]
      exact Or.inr live.1
  | pops a b payload e rest pending => exact Or.inl hi
  | flushes a e rest live pending waited =>
    rw [List.mem_singleton.mp (List.count_pos_iff.mp hi)]
    exact Or.inr live.1
  | queues a b reqHdr resp => exact Or.inl hi
  | writes a b out e =>
    rw [pins_returnTo] at hi
    exact Or.inl hi
  | drops a e => exact Or.inl hi
  | unpins released quiet pins alone before after =>
    have hpins := pins i
    exact Or.inl (by omega)

/-! One step of the gateway. -/

/-- Every reference count is the number of pins, and what is pinned is in use. -/
structure Counted (s : SgState) : Prop where
  inFlight : ∀ i, (s.table i).inFlight = pinsOf s i
  live : ∀ i, 0 < pinsOf s i → (s.table i).inUse = true

theorem Counted.initial : Counted SgState.initial where
  inFlight := fun _ => rfl
  live := fun _ h => absurd h (Nat.lt_irrefl 0)

/-- A slot that `sess_alloc` takes is not in use, or nobody holds it. -/
theorem Counted.unpinned {s : SgState} (h : Counted s) {now : Nat} {i : Fin maxSessions}
    (halloc : sessAlloc s.table now = some i) : pinsOf s i = 0 := by
  obtain hfree | ⟨-, ⟨heligible, -⟩, -⟩ := Slots.alloc_eq_some halloc
  · by_contra hpins
    have huse := h.live i (Nat.pos_of_ne_zero hpins)
    exact Bool.false_ne_true (hfree.symm.trans huse)
  · rw [← h.inFlight i]
    simpa using heligible

theorem pinsOf_advance {s : SgState} {k : Nat} {st : Stage} (hk : s.threads[k]? = some st)
    (inp : Input) (i : Fin maxSessions) :
    pinsOf (sgStep P s (.advance k inp)) i + st.pins.count i
      = pinsOf s i + (advance P s.table s.clock inp st).2.pins.count i := by
  rw [sgStep_advance P hk]
  exact Tally.total_set _ hk _

theorem Counted.step {s : SgState} (h : Counted s) (act : SgAct) : Counted (sgStep P s act) := by
  cases act with
  | tick ms => exact ⟨h.inFlight, h.live⟩
  | arrive pkt =>
    have hpins : ∀ i, pinsOf (sgStep P s (.arrive pkt)) i = pinsOf s i := by
      intro i
      simp [pinsOf, sgStep, Stage.pins]
    exact ⟨fun i => (h.inFlight i).trans (hpins i).symm, fun i hi => h.live i (hpins i ▸ hi)⟩
  | extend master role =>
    cases halloc : sessAlloc s.table s.clock with
    | none =>
      rw [sgStep_refused P halloc]
      exact h
    | some i =>
      have hzero := h.unpinned halloc
      rw [sgStep_extend P halloc]
      constructor
      · intro j
        by_cases hj : j = i
        · subst hj
          exact (congrArg SgSession.inFlight (Function.update_self _ _ _)).trans hzero.symm
        · exact (congrArg SgSession.inFlight (Function.update_of_ne hj _ _)).trans (h.inFlight j)
      · intro j hpins
        by_cases hj : j = i
        · subst hj
          exact absurd hzero hpins.ne'
        · exact (congrArg (fun x : SgSession => x.inUse) (Function.update_of_ne hj _ _)).trans
            (h.live j hpins)
  | advance k inp =>
    cases hk : s.threads[k]? with
    | none =>
      rw [sgStep_idle P hk]
      exact h
    | some st =>
      have hmoves := advance_moves P s.table s.clock inp st
      have hle : ∀ i, st.pins.count i ≤ pinsOf s i :=
        fun i => Tally.le_total (fun st => st.pins.count i) hk
      constructor
      · intro i
        have hpins := pinsOf_advance P hk inp i
        have hcount := hmoves.inFlight P (i := i) ((hle i).trans (h.inFlight i).ge)
        have hold := h.inFlight i
        rw [sgStep_advance P hk] at hpins ⊢
        change ((advance P s.table s.clock inp st).1 i).inFlight = _
        omega
      · intro i hpos
        have hpins := pinsOf_advance P hk inp i
        have hid := hmoves.identity P i
        have hst := hle i
        have huse : ((sgStep P s (.advance k inp)).table i).inUse = (s.table i).inUse := by
          rw [sgStep_advance P hk]
          exact congrArg Prod.fst hid
        rw [huse]
        by_cases hafter : 0 < (advance P s.table s.clock inp st).2.pins.count i
        · obtain hbefore | hlive := hmoves.live P hafter
          · exact h.live i (hbefore.trans_le hst)
          · exact hlive
        · exact h.live i (by omega)

/-- A pinned slot holds the same session after the step. -/
theorem Counted.identity_step {s : SgState} (h : Counted s) (act : SgAct) {i : Fin maxSessions}
    (hpins : 0 < pinsOf s i) : identity ((sgStep P s act).table i) = identity (s.table i) := by
  cases act with
  | tick ms => rfl
  | arrive pkt => rfl
  | extend master role =>
    cases halloc : sessAlloc s.table s.clock with
    | none => rw [sgStep_refused P halloc]
    | some j =>
      have hne : i ≠ j := by
        rintro rfl
        exact hpins.ne' (h.unpinned halloc)
      rw [sgStep_extend P halloc]
      exact congrArg identity (Function.update_of_ne hne _ _)
  | advance k inp =>
    cases hk : s.threads[k]? with
    | none => rw [sgStep_idle P hk]
    | some st =>
      rw [sgStep_advance P hk]
      exact (advance_moves P s.table s.clock inp st).identity P i

/-! Threads return. -/

/-- A handler at its end, or the flush thread between two responses. -/
def Stage.returned : Stage → Bool
  | .finished | .scanning _ => true
  | _ => false

/-- How many steps a thread may still take before it returns. -/
def Stage.rank : Stage → Nat
  | .finished | .scanning _ => 0
  | .lookup _ candidates => candidates.length + 10
  | .matched _ _ _ => 9
  | .coverFind _ _ | .setupStore _ _ | .requestFind _ _ => 8
  | .coverPop _ _ _ | .setupFind _ _ | .requestStore _ _ _ => 7
  | .setupVerify _ _ _ | .relaying _ _ _ => 6
  | .setupCommit _ _ _ | .queueing _ _ _ _ | .flushFind _ _ => 5
  | .sending _ _ _ => 4
  | .writing _ _ _ _ | .setupClear _ => 3
  | .done _ _ | .flushUnpinB _ _ => 2
  | .flushUnpin _ => 1

theorem rank_withPartner (t : Table) (a : Fin maxSessions) {found : Fin maxSessions → Stage}
    {none : Stage} {n : Nat} (hfound : ∀ b, (found b).rank < n) (hnone : none.rank < n) :
    (withPartner (findBForA P t a) found none).2.rank < n := by
  unfold withPartner
  cases (findBForA P t a).1 with
  | none => exact hnone
  | some b => exact hfound b

theorem rank_afterMatch (t : Table) (a : Fin maxSessions) (payload : List UInt8) (flags : UInt8) :
    (afterMatch t a payload flags).rank < 9 := by
  unfold afterMatch
  repeat' split
  all_goals simp [Stage.rank]

theorem rank_afterEmpty (a b : Fin maxSessions) (payload : List UInt8) (junk : Option (Bytes 32)) :
    (afterEmpty a b payload junk).rank < 7 := by
  unfold afterEmpty
  repeat' split
  all_goals simp [Stage.rank]

theorem rank_advance (t : Table) (now : Nat) (inp : Input) {st : Stage}
    (h : st.returned = false) : (advance P t now inp st).2.rank < st.rank := by
  cases st with
  | lookup pkt cs =>
    cases cs with
    | nil => exact Nat.zero_lt_succ _
    | cons c cs =>
      simp only [advance]
      cases acceptCandidate P t pkt c with
      | none => exact Nat.lt_succ_self _
      | some out => exact Nat.lt_add_left (cs.length + 1) (by decide : 9 < 10)
  | matched a payload flags => exact rank_afterMatch t a payload flags
  | coverFind a payload =>
    exact rank_withPartner P t a (fun _ => (by decide : 7 < 8)) (by decide : 2 < 8)
  | coverPop a b payload =>
    simp only [advance]
    rcases pendingPop_spec t a 0 now with hpop | ⟨e, rest, -, -, hpop⟩
    · rw [hpop]
      exact rank_afterEmpty a b payload inp.junk
    · rw [hpop]
      exact (by decide : 4 < 7)
  | setupStore a payload => exact (by decide : 7 < 8)
  | setupFind a hdr =>
    exact rank_withPartner P t a (fun _ => (by decide : 6 < 7)) (by decide : 3 < 7)
  | setupVerify a b hdr =>
    simp only [advance]
    split
    · exact (by decide : 5 < 6)
    · exact (by decide : 2 < 6)
  | setupCommit a b hdr => exact (by decide : 4 < 5)
  | setupClear a => exact (by decide : 2 < 3)
  | requestFind a payload =>
    exact rank_withPartner P t a (fun _ => (by decide : 7 < 8)) (by decide : 2 < 8)
  | requestStore a b payload =>
    simp only [advance]
    split
    · exact (by decide : 2 < 7)
    · exact (by decide : 6 < 7)
  | relaying a b reqHdr =>
    simp only [advance]
    cases inp.reply with
    | none => exact (by decide : 2 < 6)
    | some resp =>
      dsimp only
      split
      · exact (by decide : 2 < 6)
      · exact (by decide : 5 < 6)
  | queueing a b reqHdr resp => exact (by decide : 2 < 5)
  | sending a b out => exact (by decide : 3 < 4)
  | writing a b out e =>
    cases out with
    | flushed e => exact (by decide : 2 < 3)
    | _ => exact (by decide : 2 < 3)
  | done a b => exact (by decide : 0 < 2)
  | finished => cases h
  | scanning i => cases h
  | flushFind i e =>
    exact rank_withPartner P t i (fun _ => (by decide : 4 < 5)) (by decide : 1 < 5)
  | flushUnpinB i b => exact (by decide : 1 < 2)
  | flushUnpin i => exact (by decide : 0 < 1)

/-- A thread that is scheduled often enough returns, whatever it takes from outside. -/
theorem thread_returns {s : SgState} {k : Nat} {st : Stage} (hk : s.threads[k]? = some st)
    {inps : List Input} (hlen : st.rank ≤ inps.length) :
    ∃ u, u <+: inps.map (SgAct.advance k) ∧
      ∃ st', (run (sgStep P) u s).threads[k]? = some st' ∧ st'.returned = true := by
  induction inps generalizing s st with
  | nil =>
    refine ⟨[], List.nil_prefix, st, hk, ?_⟩
    cases hst : st.returned with
    | true => rfl
    | false =>
      have hlt := rank_advance P s.table s.clock ⟨Bytes.zero _, none, none, false⟩ hst
      rw [List.length_nil] at hlen
      omega
  | cons inp inps ih =>
    cases hst : st.returned with
    | true => exact ⟨[], List.nil_prefix, st, hk, hst⟩
    | false =>
      have hlt := rank_advance P s.table s.clock inp hst
      have hk' : (sgStep P s (.advance k inp)).threads[k]?
          = some (advance P s.table s.clock inp st).2 := by
        rw [sgStep_advance P hk]
        exact List.getElem?_set_self (List.getElem?_eq_some_iff.mp hk).1
      rw [List.length_cons] at hlen
      obtain ⟨u, hu, st', hst', hreturned⟩ := ih hk' (by omega)
      exact ⟨.advance k inp :: u, List.cons_prefix_cons.mpr ⟨rfl, hu⟩, st', hst', hreturned⟩

/-! Whole runs. -/

/-- Thread `k` holds a pin on slot `i`. -/
def HoldsPin (k : Nat) (i : Fin maxSessions) (s : SgState) : Prop :=
  ∃ st, s.threads[k]? = some st ∧ i ∈ st.pins

theorem HoldsPin.pos {k : Nat} {i : Fin maxSessions} {s : SgState} (h : HoldsPin k i s) :
    0 < pinsOf s i := by
  obtain ⟨st, hk, hmem⟩ := h
  have hle := Tally.le_total (fun st : Stage => st.pins.count i) hk
  exact (List.count_pos_iff.mpr hmem).trans_le hle

theorem Counted.along {s : SgState} (h : Counted s) (acts : List SgAct) :
    Along (sgStep P) Counted acts s := by
  induction acts generalizing s with
  | nil => exact h
  | cons act acts ih => exact ⟨h, ih (h.step P act)⟩

/-- From the pin to the unpin a slot holds the same session. -/
theorem Counted.identity_held {s : SgState} (h : Counted s) {acts : List SgAct} {k : Nat}
    {i : Fin maxSessions} (hheld : Along (sgStep P) (HoldsPin k i) acts s) :
    identity ((run (sgStep P) acts s).table i) = identity (s.table i) := by
  induction acts generalizing s with
  | nil => rfl
  | cons act acts ih =>
    exact (ih (h.step P act) hheld.2).trans (h.identity_step P act hheld.1.pos)

/-- A session's count is the number of pins on it: no thread can unpin it below zero, and it is
zero once all threads have returned, as each of them does. Its slot is not reclaimed while it is
pinned, and role and key stay as they are from the pin to the unpin. -/
structure PinSafe (s : SgState) : Prop where
  counted : ∀ i, (s.table i).inFlight = pinsOf s i
  covered : ∀ st ∈ s.threads, ∀ i, st.pins.count i ≤ (s.table i).inFlight
  returned : (∀ st ∈ s.threads, st.returned = true) → ∀ i, (s.table i).inFlight = 0
  returns : ∀ k st, s.threads[k]? = some st → ∀ inps : List Input, st.rank ≤ inps.length →
    ∃ u, u <+: inps.map (SgAct.advance k) ∧
      ∃ st', (run (sgStep P) u s).threads[k]? = some st' ∧ st'.returned = true
  kept : ∀ now i, sessAlloc s.table now = some i → pinsOf s i = 0
  held : ∀ acts k i, Along (sgStep P) (HoldsPin k i) acts s →
    ((run (sgStep P) acts s).table i).role = (s.table i).role ∧
      ((run (sgStep P) acts s).table i).e2eKey = (s.table i).e2eKey

theorem Counted.pinSafe {s : SgState} (h : Counted s) : PinSafe P s where
  counted := h.inFlight
  covered := by
    intro st hst i
    obtain ⟨k, hk⟩ := List.mem_iff_getElem?.mp hst
    rw [h.inFlight i]
    exact Tally.le_total (fun st : Stage => st.pins.count i) hk
  returned := by
    intro hall i
    rw [h.inFlight i]
    refine Tally.total_eq_zero fun st hst => ?_
    have hreturned := hall st hst
    cases st with
    | finished => rfl
    | scanning j => rfl
    | _ => cases hreturned
  returns := fun _ _ hk _ hlen => thread_returns P hk hlen
  kept := fun _ _ halloc => h.unpinned halloc
  held := by
    intro acts k i hheld
    have hid := h.identity_held P hheld
    exact ⟨congrArg (fun x => x.2.1) hid, congrArg (fun x => x.2.2) hid⟩

theorem pin_safety (acts : List SgAct) : Along (sgStep P) (PinSafe P) acts SgState.initial :=
  (Counted.initial.along P acts).mono (sgStep P) fun _ h => h.pinSafe P

end AnonSecNet.Gateway
