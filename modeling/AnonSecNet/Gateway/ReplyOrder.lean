import AnonSecNet.Gateway.Binding
import AnonSecNet.Gateway.Mailbox
import AnonSecNet.Gateway.Pins
import AnonSecNet.Gateway.Relay

/-! The way of the responses of a session: queued, waiting in its mailbox, in the hand of a
thread that popped them, and written to the first return hop. -/
namespace AnonSecNet.Gateway
open Octets Machine
variable (P : Primitives)

/-- The responses of slot `i` that threads have popped and not sent yet. -/
def inHandOf (s : SgState) (i : Fin maxSessions) : List PendingResp :=
  s.threads.flatMap (Stage.inHand i)

/-- The mailbox from which a thread at this stage takes a response. -/
def Stage.popSlot (t : Table) (now : Nat) : Stage → Option (Fin maxSessions)
  | .coverPop a _ _ => if (t a).pending.isEmpty then none else some a
  | .scanning i =>
    if (t i).inUse = true ∧ (t i).role = sessionRoleA ∧
        (t i).pending.head?.any fun e =>
          decide (pendingResponseMaxWaitMs ≤ ticksSince now e.sinceMs)
    then some i
    else none
  | _ => none

def popSlot (s : SgState) : SgAct → Option (Fin maxSessions)
  | .advance k _ => s.threads[k]?.bind (Stage.popSlot s.table s.clock)
  | _ => none

/-! What a step does to the responses of one slot. -/

/-- Nothing; the slot is taken for a new session; a thread pops the oldest response; a response
is queued; or one that is in hand is written or dropped. -/
inductive SlotEffect (s : SgState) (act : SgAct) (s' : SgState) (i : Fin maxSessions) : Prop where
  | same (pending : (s'.table i).pending = (s.table i).pending)
      (hand : inHandOf s' i = inHandOf s i) (queued : s'.queued i = s.queued i)
      (written : s'.written i = s.written i)
  | taken (pending : (s'.table i).pending = []) (hand : inHandOf s' i = [])
      (queued : s'.queued i = []) (written : s'.written i = [])
  | popped (e : PendingResp) (u v : List PendingResp) (pops : popSlot s act = some i)
      (pending : (s.table i).pending = e :: (s'.table i).pending)
      (before : inHandOf s i = u ++ v) (after : inHandOf s' i = u ++ e :: v)
      (queued : s'.queued i = s.queued i) (written : s'.written i = s.written i)
  | enqueued (reqHdr : ReturnHeader) (resp : List UInt8)
      (pending : (s'.table i).pending = (sendResponse s.table i reqHdr resp s.clock i).pending)
      (hand : inHandOf s' i = inHandOf s i)
      (queued : s'.queued i
        = s.queued i ++ if resp.length ≤ maxInnerPayload then [⟨resp, reqHdr, s.clock⟩] else [])
      (written : s'.written i = s.written i)
  | released (e : PendingResp) (u v : List PendingResp)
      (pending : (s'.table i).pending = (s.table i).pending)
      (before : inHandOf s i = u ++ e :: v) (after : inHandOf s' i = u ++ v)
      (queued : s'.queued i = s.queued i)
      (written : s'.written i = s.written i ∨ s'.written i = s.written i ++ [e])

theorem record_lookup (s : SgState) (inp : Input) (pkt : WirePacket)
    (cs : List (Fin maxSessions × AesKey)) :
    (s.record P inp (.lookup pkt cs)).queued = s.queued ∧
      (s.record P inp (.lookup pkt cs)).written = s.written := by
  cases cs with
  | nil => exact ⟨rfl, rfl⟩
  | cons c cs =>
    simp only [SgState.record]
    split
    · exact ⟨rfl, rfl⟩
    · exact ⟨rfl, rfl⟩

theorem pending_unpins (released : List (Fin maxSessions)) (t : Table) (i : Fin maxSessions) :
    (released.foldl unpin t i).pending = (t i).pending := by
  induction released generalizing t with
  | nil => rfl
  | cons a released ih => exact (ih (unpin t a)).trans (update_keeps SgSession.pending rfl)

theorem pending_sendResponse_of_ne {t : Table} {a i : Fin maxSessions} (h : i ≠ a)
    {reqHdr : ReturnHeader} {resp : List UInt8} {now : Nat} :
    (sendResponse t a reqHdr resp now i).pending = (t i).pending := by
  unfold sendResponse
  split
  · rfl
  · rw [Function.update_of_ne h]

theorem pending_pin (t : Table) (a i : Fin maxSessions) :
    (pin t a i).pending = (t i).pending := update_keeps SgSession.pending rfl

/-- A thread holds a response only of a session it has pinned. -/
theorem Stage.inHand_eq_nil {st : Stage} {i : Fin maxSessions} (h : st.pins.count i = 0) :
    st.inHand i = [] := by
  have hmem : i ∉ st.pins := List.count_eq_zero.mp h
  have hne : ∀ {a : Fin maxSessions} {as : List (Fin maxSessions)}, i ∉ a :: as → a ≠ i := by
    rintro a as hnot rfl
    exact hnot List.mem_cons_self
  cases st with
  | sending a b out => exact if_neg (hne hmem)
  | writing a b out e => exact if_neg (hne hmem)
  | flushFind a e => exact if_neg (hne hmem)
  | _ => rfl

theorem inHandOf_eq_nil {s : SgState} {i : Fin maxSessions} (h : pinsOf s i = 0) :
    inHandOf s i = [] := by
  refine List.flatMap_eq_nil_iff.mpr fun st hst => ?_
  obtain ⟨k, hk⟩ := List.mem_iff_getElem?.mp hst
  have hle := Tally.le_total (fun st : Stage => st.pins.count i) hk
  exact Stage.inHand_eq_nil (Nat.le_zero.mp (hle.trans h.le))

theorem inHand_returnTo (a b i : Fin maxSessions) (out : Outgoing) :
    (out.returnTo a b).inHand i = [] := by
  cases out <;> rfl

theorem popSlot_scanning {t : Table} {now : Nat} {i : Fin maxSessions} {e : PendingResp}
    {rest : List PendingResp} (live : (t i).inUse = true ∧ (t i).role = sessionRoleA)
    (pending : (t i).pending = e :: rest)
    (waited : pendingResponseMaxWaitMs ≤ ticksSince now e.sinceMs) :
    (Stage.scanning i).popSlot t now = some i := by
  refine if_pos ⟨live.1, live.2, ?_⟩
  rw [pending, List.head?_cons, Option.any_some]
  exact decide_eq_true waited

theorem popSlot_advance {s : SgState} {k : Nat} {st : Stage} (hk : s.threads[k]? = some st)
    (inp : Input) : popSlot s (.advance k inp) = st.popSlot s.table s.clock := by
  simp only [popSlot, hk, Option.bind_some]

theorem inHandOf_advance {s : SgState} {k : Nat} {st : Stage} (hk : s.threads[k]? = some st)
    (inp : Input) (i : Fin maxSessions) :
    ∃ u v, inHandOf s i = u ++ (st.inHand i ++ v) ∧
      inHandOf (sgStep P s (.advance k inp)) i
        = u ++ ((advance P s.table s.clock inp st).2.inHand i ++ v) := by
  obtain ⟨u, v, hsplit, hset⟩ := Tally.split_set hk
  refine ⟨u.flatMap (Stage.inHand i), v.flatMap (Stage.inHand i), ?_, ?_⟩
  · rw [inHandOf, hsplit, List.flatMap_append, List.flatMap_cons]
  · rw [sgStep_advance P hk, inHandOf]
    dsimp only
    rw [hset, List.flatMap_append, List.flatMap_cons]

/-- What a write does to the record. -/
theorem record_writing (s : SgState) (inp : Input) (a b : Fin maxSessions) (out : Outgoing)
    (e : Sending) (i : Fin maxSessions) :
    (s.record P inp (.writing a b out e)).queued = s.queued ∧
      ((s.record P inp (.writing a b out e)).written i = s.written i ∨
        (s.record P inp (.writing a b out e)).written i
          = s.written i ++ if a = i then out.taken.toList else []) := by
  simp only [SgState.record]
  split
  · refine ⟨rfl, Or.inr ?_⟩
    by_cases ha : i = a
    · subst ha
      simp
    · simp [Function.update_of_ne ha, Ne.symm ha]
  · exact ⟨rfl, Or.inl rfl⟩

theorem record_queueing (s : SgState) (inp : Input) (a b : Fin maxSessions) (reqHdr : ReturnHeader)
    (resp : List UInt8) :
    (s.record P inp (.queueing a b reqHdr resp)).written = s.written ∧
      (s.record P inp (.queueing a b reqHdr resp)).queued
        = Function.update s.queued a (s.queued a ++
            if resp.length ≤ maxInnerPayload then [⟨resp, reqHdr, s.clock⟩] else []) := by
  simp only [SgState.record]
  split
  · exact ⟨rfl, rfl⟩
  · refine ⟨rfl, ?_⟩
    rw [List.append_nil, Function.update_eq_self]

theorem sgStep_slot_advance {s : SgState} {k : Nat} {st : Stage} (hk : s.threads[k]? = some st)
    (inp : Input) (i : Fin maxSessions) :
    SlotEffect s (.advance k inp) (sgStep P s (.advance k inp)) i := by
  obtain ⟨u, v, hbefore, hafter⟩ := inHandOf_advance P hk inp i
  have hpops := popSlot_advance hk inp
  have hstep := sgStep_advance P hk inp
  have htable := congrArg SgState.table hstep
  have hqueued : (sgStep P s (.advance k inp)).queued = (s.record P inp st).queued := by
    rw [hstep]
  have hwritten : (sgStep P s (.advance k inp)).written = (s.record P inp st).written := by
    rw [hstep]
  have hmoves := advance_moves P s.table s.clock inp st
  dsimp only at htable
  rw [← htable] at hmoves
  generalize (advance P s.table s.clock inp st).2 = st' at hmoves hafter
  generalize sgStep P s (.advance k inp) = s' at *
  clear htable hstep
  generalize ht : s'.table = t' at hmoves
  have hquiet : Quiet P s.table st → s'.queued i = s.queued i ∧ s'.written i = s.written i := by
    intro hquiet
    rw [hqueued, hwritten, hquiet s inp rfl]
    exact ⟨rfl, rfl⟩
  cases hmoves with
  | keeps quiet pins inHand =>
    obtain ⟨hq, hw⟩ := hquiet quiet
    exact .same (by rw [ht]) (by rw [hafter, hbefore, inHand]) hq hw
  | stores a sess quiet pins inHand same =>
    obtain ⟨hq, hw⟩ := hquiet quiet
    refine .same ?_ (by rw [hafter, hbefore, inHand]) hq hw
    rw [ht]
    exact update_keeps SgSession.pending same.pending
  | accepts pkt c cs payload flags live accepted =>
    obtain ⟨hq, hw⟩ := record_lookup P s inp pkt (c :: cs)
    rw [hq] at hqueued
    rw [hw] at hwritten
    refine .same ?_ (by rw [hafter, hbefore]; rfl) (congrFun hqueued i) (congrFun hwritten i)
    rw [ht, pending_pin]
    exact update_keeps SgSession.pending rfl
  | pins a b quiet live before after inHand =>
    obtain ⟨hq, hw⟩ := hquiet quiet
    refine .same ?_ (by rw [hafter, hbefore, inHand]) hq hw
    rw [ht, pending_pin]
  | pops a b payload e rest pending =>
    obtain ⟨hq, hw⟩ := hquiet fun _ _ _ => rfl
    by_cases ha : a = i
    · subst ha
      have hpop : (Stage.coverPop a b payload).popSlot s.table s.clock = some a := by
        simp [Stage.popSlot, pending]
      have hrest : (s'.table a).pending = rest := by rw [ht, Function.update_self]
      refine .popped e u v (hpops.trans hpop) (by rw [hrest, pending]) hbefore ?_ hq hw
      rw [hafter]
      simp [Stage.inHand, Outgoing.taken]
    · refine .same ?_ ?_ hq hw
      · rw [ht, Function.update_of_ne (Ne.symm ha)]
      · rw [hafter, hbefore]
        simp [Stage.inHand, ha]
  | flushes a e rest live pending waited =>
    obtain ⟨hq, hw⟩ := hquiet fun _ _ _ => rfl
    by_cases ha : a = i
    · subst ha
      have hpop := popSlot_scanning live pending waited
      have hrest : (s'.table a).pending = rest := by rw [ht, pending_pin, Function.update_self]
      refine .popped e u v (hpops.trans hpop) (by rw [hrest, pending]) hbefore ?_ hq hw
      rw [hafter]
      simp [Stage.inHand]
    · refine .same ?_ ?_ hq hw
      · rw [ht, pending_pin, Function.update_of_ne (Ne.symm ha)]
      · rw [hafter, hbefore]
        simp [Stage.inHand, ha]
  | queues a b reqHdr resp =>
    obtain ⟨hw, hq⟩ := record_queueing P s inp a b reqHdr resp
    rw [hw] at hwritten
    rw [hq] at hqueued
    have hhand : inHandOf s' i = inHandOf s i := by
      rw [hafter, hbefore]
      rfl
    by_cases ha : a = i
    · subst ha
      refine .enqueued reqHdr resp (by rw [ht]) hhand ?_ (congrFun hwritten a)
      rw [hqueued, Function.update_self]
    · refine .same ?_ hhand ?_ (congrFun hwritten i)
      · rw [ht, pending_sendResponse_of_ne (Ne.symm ha)]
      · rw [hqueued, Function.update_of_ne (Ne.symm ha)]
  | writes a b out e =>
    obtain ⟨hq, hw⟩ := record_writing P s inp a b out e i
    rw [inHand_returnTo] at hafter
    rw [hq] at hqueued
    rw [← hwritten] at hw
    have hpending : (s'.table i).pending = (s.table i).pending := by rw [ht]
    have hhand : Stage.inHand i (.writing a b out e) = if a = i then out.taken.toList else [] := rfl
    rw [hhand] at hbefore
    by_cases ha : a = i
    · rw [if_pos ha] at hbefore hw
      cases htaken : out.taken with
      | none =>
        rw [htaken, Option.toList_none] at hbefore hw
        rw [List.append_nil, or_self] at hw
        exact .same hpending (hafter.trans hbefore.symm) (congrFun hqueued i) hw
      | some r =>
        rw [htaken, Option.toList_some] at hbefore hw
        exact .released r u v hpending hbefore hafter (congrFun hqueued i) hw
    · rw [if_neg ha] at hbefore hw
      rw [List.append_nil, or_self] at hw
      exact .same hpending (hafter.trans hbefore.symm) (congrFun hqueued i) hw
  | drops a e =>
    obtain ⟨hq, hw⟩ := hquiet fun _ _ _ => rfl
    by_cases ha : a = i
    · subst ha
      refine .released e u v (by rw [ht]) ?_ hafter hq (Or.inl hw)
      rw [hbefore]
      simp [Stage.inHand]
    · refine .same (by rw [ht]) ?_ hq hw
      rw [hafter, hbefore]
      simp [Stage.inHand, ha]
  | unpins released quiet pins alone before after =>
    obtain ⟨hq, hw⟩ := hquiet quiet
    refine .same ?_ (by rw [hafter, hbefore, before, after]) hq hw
    rw [ht, pending_unpins]

theorem sgStep_slot {s : SgState} (hcounted : Counted s) (act : SgAct) (i : Fin maxSessions) :
    SlotEffect s act (sgStep P s act) i := by
  cases act with
  | tick ms => exact .same rfl rfl rfl rfl
  | arrive pkt =>
    refine .same rfl ?_ rfl rfl
    simp [inHandOf, sgStep, Stage.inHand]
  | extend master role =>
    cases halloc : sessAlloc s.table s.clock with
    | none =>
      rw [sgStep_refused P halloc]
      exact .same rfl rfl rfl rfl
    | some j =>
      rw [sgStep_extend P halloc]
      by_cases hj : i = j
      · subst hj
        refine .taken ?_ (inHandOf_eq_nil (hcounted.unpinned halloc)) ?_ ?_
        · simp only [SgState.establish, Function.update_self]
          rfl
        · exact Function.update_self _ _ _
        · exact Function.update_self _ _ _
      · refine .same ?_ rfl ?_ ?_
        · exact congrArg SgSession.pending (Function.update_of_ne hj _ _)
        · exact Function.update_of_ne hj _ _
        · exact Function.update_of_ne hj _ _
  | advance k inp =>
    cases hk : s.threads[k]? with
    | none =>
      rw [sgStep_idle P hk]
      exact .same rfl rfl rfl rfl
    | some st => exact sgStep_slot_advance P hk inp i

/-! The mailbox of a slot under the threads. -/

/-- The operation on the mailbox that a step amounts to. -/
theorem SlotEffect.mailbox {s s' : SgState} {act : SgAct} {i : Fin maxSessions}
    (h : SlotEffect s act s' i) {b : BoxState} (hb : b.waiting = (s.table i).pending) :
    ∃ ops, (run boxStep ops b).waiting = (s'.table i).pending := by
  cases h with
  | same pending hand queued written => exact ⟨[], hb.trans pending.symm⟩
  | taken pending hand queued written => exact ⟨[.sessAlloc 0], pending.symm⟩
  | popped e u v pops pending before after queued written =>
    refine ⟨[.cover 0], ?_⟩
    obtain ⟨out, hout, -, hleft⟩ := (boxStep_moves b (.cover 0)).leaves
    have hwaiting : b.waiting = e :: (s'.table i).pending := hb.trans pending
    have hhead : out.map Prod.fst = [e] := by
      rw [hout, hwaiting]
      rfl
    have hnone : queues (.cover 0) = [] := rfl
    rw [hhead, hwaiting, hnone, List.append_nil] at hleft
    exact List.tail_eq_of_cons_eq hleft
  | enqueued reqHdr resp pending hand queued written =>
    refine ⟨[.sendResponse reqHdr resp s.clock], ?_⟩
    rw [pending, ← BoxSlot.sendResponse_refines hb]
    by_cases hlen : resp.length ≤ maxInnerPayload
    · simp only [run, boxStep, if_pos hlen]
      rfl
    · simp only [run, boxStep, if_neg hlen, BoxSlot.sendResponse, dif_neg hlen]
      rfl
  | released e u v pending before after queued written => exact ⟨[], hb.trans pending.symm⟩

/-- In every run of the threads, the responses that wait in a slot are those in a ring under
some operations. -/
theorem mailbox_of_threads (acts : List SgAct) (i : Fin maxSessions) :
    ∃ ops, (run boxStep ops BoxState.initial).waiting
      = ((run (sgStep P) acts SgState.initial).table i).pending := by
  suffices hrun : ∀ (acts : List SgAct) (s : SgState) (b : BoxState), Counted s →
      b.waiting = (s.table i).pending →
      ∃ ops, (run boxStep ops b).waiting = ((run (sgStep P) acts s).table i).pending from
    hrun acts SgState.initial BoxState.initial Counted.initial rfl
  intro acts
  induction acts with
  | nil => exact fun s b _ hb => ⟨[], hb⟩
  | cons act acts ih =>
    intro s b hs hb
    obtain ⟨ops, hops⟩ := (sgStep_slot P hs act i).mailbox hb
    obtain ⟨more, hmore⟩ := ih _ _ (hs.step P act) hops
    exact ⟨ops ++ more, by rw [run_append]; exact hmore⟩

/-! The order of the responses. -/

/-- A thread takes a response from a mailbox only while no thread has one of it in hand. -/
def PopsAlone (s : SgState) (act : SgAct) : Prop := ∀ i ∈ popSlot s act, inHandOf s i = []

instance (s : SgState) (act : SgAct) : Decidable (PopsAlone s act) :=
  decidable_of_iff ((popSlot s act).all fun i => (inHandOf s i).isEmpty) (by
    cases h : popSlot s act <;> simp [PopsAlone, h])

/-- The responses of a session are written in the order in which they were queued. -/
def InOrder (s : SgState) : Prop := ∀ i, (s.written i).Sublist (s.queued i)

/-- At most one response is in hand; it is older than those that wait, and newer than those that
were written. -/
structure Queued (s : SgState) (i : Fin maxSessions) : Prop where
  inOrder : (s.written i ++ (inHandOf s i ++ (s.table i).pending)).Sublist (s.queued i)
  alone : (inHandOf s i).length ≤ 1

theorem sublist_tail_append {α : Type*} {u l m : List α} (h : (u ++ l).Sublist m) (full : Prop)
    [Decidable full] (x : List α) :
    (u ++ ((if full then l.tail else l) ++ x)).Sublist (m ++ x) := by
  rw [← List.append_assoc]
  refine List.Sublist.append ?_ (List.Sublist.refl x)
  split
  · exact ((List.Sublist.refl u).append (List.tail_sublist l)).trans h
  · exact h

theorem Queued.step {s s' : SgState} {act : SgAct} {i : Fin maxSessions} (h : Queued s i)
    (hact : PopsAlone s act) (heffect : SlotEffect s act s' i) : Queued s' i := by
  obtain ⟨horder, halone⟩ := h
  cases heffect with
  | same pending hand queued written =>
    exact ⟨by rw [pending, hand, queued, written]; exact horder, by rw [hand]; exact halone⟩
  | taken pending hand queued written =>
    exact ⟨by rw [pending, hand, queued, written]; exact List.Sublist.refl _,
      by rw [hand]; exact Nat.zero_le 1⟩
  | popped e u v pops pending before after queued written =>
    have hnone : u ++ v = [] := before.symm.trans (hact i pops)
    obtain ⟨rfl, rfl⟩ := List.append_eq_nil_iff.mp hnone
    rw [before, pending] at horder
    refine ⟨?_, by rw [after]; exact Nat.le_refl 1⟩
    rw [after, queued, written]
    exact horder
  | enqueued reqHdr resp pending hand queued written =>
    refine ⟨?_, by rw [hand]; exact halone⟩
    rw [pending, hand, queued, written]
    unfold sendResponse
    by_cases hlen : resp.length ≤ maxInnerPayload
    · rw [if_neg (Nat.not_lt.mpr hlen), if_pos hlen, Function.update_self, ← List.append_assoc]
      rw [← List.append_assoc] at horder
      exact sublist_tail_append horder _ _
    · rw [if_pos (Nat.not_le.mp hlen), if_neg hlen, List.append_nil]
      exact horder
  | released e u v pending before after queued written =>
    rw [before, List.length_append, List.length_cons] at halone
    have hu : u = [] := List.eq_nil_of_length_eq_zero (by omega)
    have hv : v = [] := List.eq_nil_of_length_eq_zero (by omega)
    subst hu hv
    rw [before] at horder
    refine ⟨?_, by rw [after]; exact Nat.zero_le 1⟩
    rw [after, pending, queued]
    obtain hw | hw := written
    · rw [hw]
      exact ((List.Sublist.refl _).append (List.sublist_cons_self e _)).trans horder
    · rw [hw, List.append_assoc]
      exact horder

/-- Where no thread pops a response while another has one of the same session in hand, responses
leave in the order in which they were queued. -/
theorem replies_in_order (acts : List SgAct)
    (h : StepsMeet (sgStep P) PopsAlone acts SgState.initial) :
    Along (sgStep P) InOrder acts SgState.initial := by
  have hinv : Along (sgStep P) (fun s => Counted s ∧ ∀ i, Queued s i) acts SgState.initial := by
    refine along_of_stepsMeet (sgStep P) _ ?_ ?_ h
    · rintro s act ⟨hcounted, hqueued⟩ hact
      exact ⟨hcounted.step P act, fun i => (hqueued i).step hact (sgStep_slot P hcounted act i)⟩
    · exact ⟨Counted.initial, fun _ => ⟨List.Sublist.refl _, Nat.zero_le 1⟩⟩
  refine hinv.mono (sgStep P) fun s hs i => ?_
  exact (List.sublist_append_left _ _).trans (hs.2 i).inOrder

/-- A packet for session 0 arrives. -/
def toSession (payload : List UInt8) (flags : UInt8) : SgAct :=
  .arrive (delivered .sample (sampleMaster 0) payload flags)

def sampleGet (hdr : ReturnHeader) : List UInt8 :=
  0x04 :: List.replicate (ecPubkeyLen - 1) 0 ++ (addrPlain 9041).toList ++ hdr.toList
    ++ [typeGet, 1, 0x6B]

/-- The threads of a list take one step each, in this order. -/
def schedule (ks : List Nat) : List SgAct :=
  ks.map fun k => .advance k ⟨Bytes.zero _, some (Bytes.zero _), some keyNotFound, true⟩

/-- A session is set up: a thread that is scheduled six times has committed the binding. -/
def setUp : List SgAct :=
  [.extend (sampleMaster 0) sessionRoleA, .extend (sampleMaster 1) sessionRoleB,
      toSession (setupPayload .sample (sampleMaster 0) (sampleMaster 1) (Bytes.zero _)) pktReal]
    ++ schedule (List.replicate 6 1)

/-- Thread `k` serves a GET up to the mailbox. -/
def queueReply (k : Nat) (hdr : UInt8) : List SgAct :=
  toSession (sampleGet (Bytes.fit _ [hdr])) pktReal :: schedule (List.replicate 6 k)

/-- Two replies wait when two cover packets arrive. -/
def twoReplies : List SgAct :=
  setUp ++ queueReply 2 1 ++ queueReply 3 2
    ++ List.replicate 2 (toSession (Bytes.zero returnHeaderSize).toList pktDummy)

set_option maxRecDepth 100000 in
/-- One cover packet after the other: both replies leave, and in order. -/
theorem replies_in_order_sample :
    ((run (sgStep .sample) (twoReplies ++ schedule (List.replicate 6 4 ++ List.replicate 6 5))
        .initial).written 0).length = 2 ∧
      Along (sgStep .sample) InOrder
        (twoReplies ++ schedule (List.replicate 6 4 ++ List.replicate 6 5)) .initial :=
  ⟨by decide +kernel,
    replies_in_order .sample (twoReplies ++ schedule (List.replicate 6 4 ++ List.replicate 6 5))
      (by decide +kernel)⟩

/-- Thread 4 pops the first reply, then thread 5 pops the second one and sends it first. -/
def overtakingRun : List SgAct := twoReplies ++ schedule [4, 4, 4, 4, 5, 5, 5, 5, 5, 5, 4, 4]

def overtakingEnd : SgState := run (sgStep .sample) overtakingRun .initial

set_option maxRecDepth 100000 in
theorem overtaking_reply :
    ((overtakingEnd.queued 0).map (fun e => e.hdr.toList.take 1) = [[1], [2]] ∧
        (overtakingEnd.written 0).map (fun e => e.hdr.toList.take 1) = [[2], [1]]) ∧
      ¬ Along (sgStep .sample) InOrder overtakingRun .initial := by
  have hqueued : (overtakingEnd.queued 0).map (fun e => e.hdr.toList.take 1) = [[1], [2]] := by
    decide +kernel
  have hwritten : (overtakingEnd.written 0).map (fun e => e.hdr.toList.take 1) = [[2], [1]] := by
    decide +kernel
  refine ⟨⟨hqueued, hwritten⟩, fun h => ?_⟩
  have hsub := (h.last (sgStep .sample) 0).map fun e => e.hdr.toList.take 1
  change ((overtakingEnd.written 0).map _).Sublist ((overtakingEnd.queued 0).map _) at hsub
  rw [hqueued, hwritten] at hsub
  exact absurd hsub (by decide)

end AnonSecNet.Gateway
