import AnonSecNet.Foundation.Machine
import AnonSecNet.Gateway.Relay
import AnonSecNet.Sender.Receive

/-! The response slots of `sender.c`: threads acquire a slot, send a request on it and wait for the
response, while the listener of each slot stores what arrives. One action is one critical section,
or what a thread does between two of them. -/
namespace AnonSecNet.Sender
open Octets Gateway

abbrev SlotIdx : Type := Fin senderResponsePortCount

/-- `send_slot_t`; its event resets itself when it ends a wait. -/
structure ResponseSlot where
  respBuf : WirePacket
  respReady : Bool
  respEvent : Bool
  inUse : Bool
  pendingNonce : Bytes slotNonceBytes

def ResponseSlot.zero : ResponseSlot := ⟨Bytes.zero _, false, false, false, Bytes.zero _⟩

/-- A request that a thread sent on a slot, as the gateway reads it. -/
structure SlotRequest (ι : Type*) where
  sender : ι
  slot : SlotIdx
  app : AppRequest
  echoed : hasNonce app.type = true

/-- Where a thread is with its slot, the number of its request and the deadline of its wait. -/
inductive Phase where
  | idle
  | holding (i : SlotIdx)
  | sent (i : SlotIdx) (r : Nat)
  | looping (i : SlotIdx) (r deadline : Nat)
  | blocked (i : SlotIdx) (r deadline wakeAt : Nat)
  | woken (i : SlotIdx) (r deadline : Nat)
  | copied (i : SlotIdx) (r deadline : Nat) (wire : WirePacket)
  | returned (i : SlotIdx) (r deadline : Nat) (result : Option (List UInt8))
deriving DecidableEq

def Phase.slot : Phase → Option SlotIdx
  | .idle => none
  | .holding i | .sent i _ | .looping i _ _ | .blocked i _ _ _ | .woken i _ _ | .copied i _ _ _
  | .returned i _ _ _ => some i

def Phase.request : Phase → Option Nat
  | .idle | .holding _ => none
  | .sent _ r | .looping _ r _ | .blocked _ r _ _ | .woken _ r _ | .copied _ r _ _
  | .returned _ r _ _ => some r

theorem Phase.slot_of_request {p : Phase} {r : Nat} (h : p.request = some r) :
    ∃ i, p.slot = some i := by
  cases p with
  | idle | holding => cases h
  | sent i | looping i | blocked i | woken i | copied i | returned i => exact ⟨i, rfl⟩

/-- `g_slots`, the threads of `ι`, the requests so far and how the gateway answered them, and the
time in milliseconds. -/
structure Pool (ι : Type*) where
  slots : SlotIdx → ResponseSlot
  threads : ι → Phase
  requests : List (SlotRequest ι)
  answered : List (Nat × List UInt8)
  clock : Nat

def Pool.initial (ι : Type*) : Pool ι := ⟨fun _ => .zero, fun _ => .idle, [], [], 0⟩

section
variable {ι : Type*} (s : Pool ι)

def Pool.setSlot (i : SlotIdx) (slot : ResponseSlot) : Pool ι :=
  { s with slots := Function.update s.slots i slot }

def Pool.setThread [DecidableEq ι] (t : ι) (p : Phase) : Pool ι :=
  { s with threads := Function.update s.threads t p }

@[simp] theorem Pool.slots_setSlot_self (i : SlotIdx) (slot : ResponseSlot) :
    (s.setSlot i slot).slots i = slot := Function.update_self ..

theorem Pool.slots_setSlot_of_ne {i j : SlotIdx} (h : j ≠ i) (slot : ResponseSlot) :
    (s.setSlot i slot).slots j = s.slots j := Function.update_of_ne h ..

theorem Pool.inUse_setSlot {i : SlotIdx} {slot : ResponseSlot}
    (h : slot.inUse = (s.slots i).inUse) (j : SlotIdx) :
    ((s.setSlot i slot).slots j).inUse = (s.slots j).inUse := by
  by_cases hj : j = i
  · subst hj
    rw [slots_setSlot_self, h]
  · rw [s.slots_setSlot_of_ne hj]

theorem Pool.respBuf_setSlot {i : SlotIdx} {slot : ResponseSlot}
    (h : slot.respBuf = (s.slots i).respBuf) (j : SlotIdx) :
    ((s.setSlot i slot).slots j).respBuf = (s.slots j).respBuf := by
  by_cases hj : j = i
  · subst hj
    rw [slots_setSlot_self, h]
  · rw [s.slots_setSlot_of_ne hj]

theorem Pool.pendingNonce_setSlot {i : SlotIdx} {slot : ResponseSlot}
    (h : slot.pendingNonce = (s.slots i).pendingNonce) (j : SlotIdx) :
    ((s.setSlot i slot).slots j).pendingNonce = (s.slots j).pendingNonce := by
  by_cases hj : j = i
  · subst hj
    rw [slots_setSlot_self, h]
  · rw [s.slots_setSlot_of_ne hj]

@[simp] theorem Pool.threads_setSlot (i : SlotIdx) (slot : ResponseSlot) :
    (s.setSlot i slot).threads = s.threads := rfl

@[simp] theorem Pool.slots_setThread [DecidableEq ι] (t : ι) (p : Phase) :
    (s.setThread t p).slots = s.slots := rfl

@[simp] theorem Pool.threads_setThread_self [DecidableEq ι] (t : ι) (p : Phase) :
    (s.setThread t p).threads t = p := Function.update_self ..

theorem Pool.threads_setThread_of_ne [DecidableEq ι] {t u : ι} (h : u ≠ t) (p : Phase) :
    (s.setThread t p).threads u = s.threads u := Function.update_of_ne h ..

/-- The search of `acquire_slot`. -/
def Pool.freeSlot : Option SlotIdx :=
  (List.finRange senderResponsePortCount).find? fun i => !(s.slots i).inUse

theorem Pool.freeSlot_eq_some {i : SlotIdx} (h : s.freeSlot = some i) :
    (s.slots i).inUse = false := by
  simpa using List.find?_some h

end

variable {ι : Type*}

/-- `(int32_t)(deadline - now) <= 0`. -/
def expired (deadline now : Nat) : Bool :=
  decide (ticksSince deadline now % 2 ^ 32 = 0 ∨ 2 ^ 31 ≤ ticksSince deadline now % 2 ^ 32)

inductive WorkerAct where
  | acquire
  /-- `send_app_request` from the nonce on; `sent` tells whether the packet went out. -/
  | send (app : AppRequest) (echoed : hasNonce app.type = true) (sent : Bool)
  /-- The start of `sender_wait_response`; its callers pass 3000 and 5000. -/
  | enter (timeoutMs : { ms : Nat // ms < 2 ^ 31 })
  | check
  | wake
  | timeOut
  | copy
  | filter
  | release

inductive SlotAct (ι : Type*) where
  | worker (t : ι) (a : WorkerAct)
  /-- The gateway answers a request. -/
  | answer (r : Nat) (resp : List UInt8)
  /-- A packet reaches the listener of the slot. -/
  | arrive (i : SlotIdx) (wire : WirePacket)
  | tick (ms : Nat)

variable (P : Primitives) (kSSgB : SlotIdx → AesKey)

/-- What the waiter of the slot makes of a packet. -/
def Pool.takes (s : Pool ι) (i : SlotIdx) (wire : WirePacket) : Option (List UInt8) :=
  senderWaitResponse P (kSSgB i) (s.slots i).pendingNonce wire

variable [DecidableEq ι]

def Pool.work (s : Pool ι) (t : ι) (a : WorkerAct) : Pool ι :=
  match s.threads t, a with
  | .idle, .acquire =>
    match s.freeSlot with
    | some i => (s.setSlot i { s.slots i with inUse := true }).setThread t (.holding i)
    | none => s
  | .holding i, .send app echoed sent =>
    let stamped := s.setSlot i { s.slots i with pendingNonce := app.reqNonce }
    if sent then
      { stamped.setThread t (.sent i s.requests.length) with
        requests := s.requests ++ [⟨t, i, app, echoed⟩] }
    else stamped
  | .sent i r, .enter timeoutMs => s.setThread t (.looping i r (s.clock + timeoutMs))
  | .looping i r deadline, .check =>
    if expired deadline s.clock then s.setThread t (.returned i r deadline none)
    else s.setThread t (.blocked i r deadline (s.clock + ticksSince deadline s.clock))
  | .blocked i r deadline _, .wake =>
    if (s.slots i).respEvent then
      (s.setSlot i { s.slots i with respEvent := false }).setThread t (.woken i r deadline)
    else s
  | .blocked i r deadline wakeAt, .timeOut =>
    if (s.slots i).respEvent = false ∧ wakeAt ≤ s.clock then
      s.setThread t (.returned i r deadline none)
    else s
  | .woken i r deadline, .copy =>
    (s.setSlot i { s.slots i with respReady := false, respEvent := false }).setThread t
      (.copied i r deadline (s.slots i).respBuf)
  | .copied i r deadline wire, .filter =>
    match s.takes P kSSgB i wire with
    | some resp => s.setThread t (.returned i r deadline (some resp))
    | none => s.setThread t (.looping i r deadline)
  | .holding i, .release | .returned i _ _ _, .release =>
    (s.setSlot i { s.slots i with inUse := false }).setThread t .idle
  | _, _ => s

def Pool.step (s : Pool ι) : SlotAct ι → Pool ι
  | .worker t a => s.work P kSSgB t a
  | .answer r resp =>
    match s.requests[r]? with
    | some q =>
      if resp = [] ∨ maxInnerPayload < (withNonce q.app resp).length then s
      else { s with answered := s.answered ++ [(r, resp)] }
    | none => s
  | .arrive i wire =>
    if listenerAccepts P (kSSgB i) wire then
      s.setSlot i { s.slots i with respBuf := wire, respReady := true, respEvent := true }
    else s
  | .tick ms => { s with clock := s.clock + ms }

/-! What one action does. -/

/-- The step of a thread. -/
inductive Pool.Works (s : Pool ι) (t : ι) : WorkerAct → Pool ι → Prop where
  | stays (a : WorkerAct) : Works s t a s
  | acquires (i : SlotIdx) (hphase : s.threads t = .idle) (hfree : (s.slots i).inUse = false) :
      Works s t .acquire
        ((s.setSlot i { s.slots i with inUse := true }).setThread t (.holding i))
  | stamps (i : SlotIdx) (app : AppRequest) (echoed : hasNonce app.type = true)
      (hphase : s.threads t = .holding i) :
      Works s t (.send app echoed false)
        (s.setSlot i { s.slots i with pendingNonce := app.reqNonce })
  | sends (i : SlotIdx) (app : AppRequest) (echoed : hasNonce app.type = true)
      (hphase : s.threads t = .holding i) :
      Works s t (.send app echoed true)
        { (s.setSlot i { s.slots i with pendingNonce := app.reqNonce }).setThread t
            (.sent i s.requests.length) with
          requests := s.requests ++ [⟨t, i, app, echoed⟩] }
  | enters (i : SlotIdx) (r : Nat) (timeoutMs : { ms : Nat // ms < 2 ^ 31 })
      (hphase : s.threads t = .sent i r) :
      Works s t (.enter timeoutMs) (s.setThread t (.looping i r (s.clock + timeoutMs)))
  | expires (i : SlotIdx) (r deadline : Nat) (hphase : s.threads t = .looping i r deadline)
      (hlate : expired deadline s.clock = true) :
      Works s t .check (s.setThread t (.returned i r deadline none))
  | blocks (i : SlotIdx) (r deadline : Nat) (hphase : s.threads t = .looping i r deadline)
      (hearly : expired deadline s.clock = false) :
      Works s t .check
        (s.setThread t (.blocked i r deadline (s.clock + ticksSince deadline s.clock)))
  | wakes (i : SlotIdx) (r deadline wakeAt : Nat)
      (hphase : s.threads t = .blocked i r deadline wakeAt)
      (hevent : (s.slots i).respEvent = true) :
      Works s t .wake ((s.setSlot i { s.slots i with respEvent := false }).setThread t
        (.woken i r deadline))
  | timesOut (i : SlotIdx) (r deadline wakeAt : Nat)
      (hphase : s.threads t = .blocked i r deadline wakeAt)
      (hevent : (s.slots i).respEvent = false) (hlate : wakeAt ≤ s.clock) :
      Works s t .timeOut (s.setThread t (.returned i r deadline none))
  | copies (i : SlotIdx) (r deadline : Nat) (hphase : s.threads t = .woken i r deadline) :
      Works s t .copy
        ((s.setSlot i { s.slots i with respReady := false, respEvent := false }).setThread t
          (.copied i r deadline (s.slots i).respBuf))
  | accepts (i : SlotIdx) (r deadline : Nat) (wire : WirePacket) (resp : List UInt8)
      (hphase : s.threads t = .copied i r deadline wire)
      (htakes : s.takes P kSSgB i wire = some resp) :
      Works s t .filter (s.setThread t (.returned i r deadline (some resp)))
  | discards (i : SlotIdx) (r deadline : Nat) (wire : WirePacket)
      (hphase : s.threads t = .copied i r deadline wire)
      (htakes : s.takes P kSSgB i wire = none) :
      Works s t .filter (s.setThread t (.looping i r deadline))
  | releases (i : SlotIdx) (hslot : (s.threads t).slot = some i) :
      Works s t .release ((s.setSlot i { s.slots i with inUse := false }).setThread t .idle)

/-- The step of the pool. -/
inductive Pool.Moves (s : Pool ι) : SlotAct ι → Pool ι → Prop where
  | stays (a : SlotAct ι) : Moves s a s
  | works (t : ι) (a : WorkerAct) (s' : Pool ι) (h : s.Works P kSSgB t a s') :
      Moves s (.worker t a) s'
  | answers (r : Nat) (resp : List UInt8) (q : SlotRequest ι) (hrequest : s.requests[r]? = some q)
      (hfits : (withNonce q.app resp).length ≤ maxInnerPayload) :
      Moves s (.answer r resp) { s with answered := s.answered ++ [(r, resp)] }
  | stores (i : SlotIdx) (wire : WirePacket)
      (haccepts : listenerAccepts P (kSSgB i) wire = true) :
      Moves s (.arrive i wire)
        (s.setSlot i { s.slots i with respBuf := wire, respReady := true, respEvent := true })
  | passes (ms : Nat) : Moves s (.tick ms) { s with clock := s.clock + ms }

variable {P kSSgB} {s s' : Pool ι} {t : ι} {a : WorkerAct}

theorem Pool.work_works (s : Pool ι) (t : ι) (a : WorkerAct) :
    s.Works P kSSgB t a (s.work P kSSgB t a) := by
  unfold Pool.work
  split
  · rename_i hphase
    split
    · rename_i i hfree
      exact .acquires i hphase (s.freeSlot_eq_some hfree)
    · exact .stays _
  · rename_i i app echoed sent hphase
    dsimp only
    split
    · rename_i hsent
      subst hsent
      exact .sends i app echoed hphase
    · rename_i hsent
      rw [Bool.not_eq_true] at hsent
      subst hsent
      exact .stamps i app echoed hphase
  · rename_i i r timeoutMs hphase
    exact .enters i r timeoutMs hphase
  · rename_i i r deadline hphase
    split
    · rename_i hlate
      exact .expires i r deadline hphase hlate
    · rename_i hearly
      exact .blocks i r deadline hphase (Bool.eq_false_iff.mpr hearly)
  · rename_i i r deadline wakeAt hphase
    split
    · rename_i hevent
      exact .wakes i r deadline wakeAt hphase hevent
    · exact .stays _
  · rename_i i r deadline wakeAt hphase
    split
    · rename_i hover
      exact .timesOut i r deadline wakeAt hphase hover.1 hover.2
    · exact .stays _
  · rename_i i r deadline hphase
    exact .copies i r deadline hphase
  · rename_i i r deadline wire hphase
    split
    · rename_i resp htakes
      exact .accepts i r deadline wire resp hphase htakes
    · rename_i htakes
      exact .discards i r deadline wire hphase htakes
  · rename_i i hphase
    exact .releases i (by rw [hphase]; rfl)
  · rename_i i r deadline result hphase
    exact .releases i (by rw [hphase]; rfl)
  · exact .stays _

theorem Pool.step_moves (s : Pool ι) (a : SlotAct ι) :
    s.Moves P kSSgB a (s.step P kSSgB a) := by
  cases a with
  | worker t a => exact .works t a _ (s.work_works t a)
  | answer r resp =>
    unfold Pool.step
    dsimp only
    split
    · rename_i q hrequest
      split
      · exact .stays _
      · rename_i hnew
        simp only [not_or, Nat.not_lt] at hnew
        exact .answers r resp q hrequest hnew.2
    · exact .stays _
  | arrive i wire =>
    unfold Pool.step
    dsimp only
    split
    · rename_i haccepts
      exact .stores i wire haccepts
    · exact .stays _
  | tick ms => exact .passes ms

theorem Pool.Works.other (h : s.Works P kSSgB t a s') {u : ι} (hu : u ≠ t) :
    s'.threads u = s.threads u := by
  cases h with
  | stays => rfl
  | stamps => rfl
  | acquires | sends | enters | expires | blocks | wakes | timesOut | copies | accepts | discards
  | releases => exact Pool.threads_setThread_of_ne _ hu _

/-- How the step bears on who holds which slot. -/
theorem Pool.Works.holds (h : s.Works P kSSgB t a s') :
    ((s'.threads t).slot = (s.threads t).slot ∧ ∀ i, (s'.slots i).inUse = (s.slots i).inUse) ∨
      (∃ i, (s.slots i).inUse = false ∧ (s'.threads t).slot = some i ∧
        (s'.slots i).inUse = true ∧ ∀ j, j ≠ i → s'.slots j = s.slots j) ∨
      ∃ i, (s.threads t).slot = some i ∧ (s'.threads t).slot = none ∧
        ∀ j, j ≠ i → s'.slots j = s.slots j := by
  cases h with
  | stays => exact .inl ⟨rfl, fun _ => rfl⟩
  | acquires i hphase hfree =>
    refine .inr (.inl ⟨i, hfree, by simp [Phase.slot], by simp, fun j hj => ?_⟩)
    exact s.slots_setSlot_of_ne hj _
  | stamps i app echoed hphase => exact .inl ⟨rfl, s.inUse_setSlot rfl⟩
  | sends i app echoed hphase =>
    refine .inl ⟨?_, s.inUse_setSlot rfl⟩
    rw [hphase, Pool.threads_setThread_self]
    rfl
  | enters i r timeoutMs hphase => exact .inl ⟨by simp [hphase, Phase.slot], fun _ => rfl⟩
  | expires i r deadline hphase hlate => exact .inl ⟨by simp [hphase, Phase.slot], fun _ => rfl⟩
  | blocks i r deadline hphase hearly => exact .inl ⟨by simp [hphase, Phase.slot], fun _ => rfl⟩
  | wakes i r deadline wakeAt hphase hevent =>
    exact .inl ⟨by simp [hphase, Phase.slot], s.inUse_setSlot rfl⟩
  | timesOut i r deadline wakeAt hphase hevent hlate =>
    exact .inl ⟨by simp [hphase, Phase.slot], fun _ => rfl⟩
  | copies i r deadline hphase => exact .inl ⟨by simp [hphase, Phase.slot], s.inUse_setSlot rfl⟩
  | accepts i r deadline wire resp hphase htakes =>
    exact .inl ⟨by simp [hphase, Phase.slot], fun _ => rfl⟩
  | discards i r deadline wire hphase htakes =>
    exact .inl ⟨by simp [hphase, Phase.slot], fun _ => rfl⟩
  | releases i hslot =>
    exact .inr (.inr ⟨i, hslot, by simp [Phase.slot], fun j hj => s.slots_setSlot_of_ne hj _⟩)

theorem Pool.Works.clock (h : s.Works P kSSgB t a s') : s'.clock = s.clock := by
  cases h <;> rfl

theorem Pool.Works.answered (h : s.Works P kSSgB t a s') : s'.answered = s.answered := by
  cases h <;> rfl

/-- Only the listener writes the buffer. -/
theorem Pool.Works.respBuf (h : s.Works P kSSgB t a s') (j : SlotIdx) :
    (s'.slots j).respBuf = (s.slots j).respBuf := by
  cases h with
  | stays | enters | expires | blocks | timesOut | accepts | discards => rfl
  | acquires | stamps | sends | wakes | copies | releases =>
    exact s.respBuf_setSlot (by rfl) j

/-- Where the request of the thread comes from. -/
theorem Pool.Works.own (h : s.Works P kSSgB t a s') {i : SlotIdx} {r : Nat}
    (hslot : (s'.threads t).slot = some i) (hreq : (s'.threads t).request = some r) :
    ((s.threads t).slot = some i ∧ (s.threads t).request = some r ∧
        (s'.slots i).pendingNonce = (s.slots i).pendingNonce) ∨
      ∃ app echoed, a = .send app echoed true ∧ s.threads t = .holding i ∧
        r = s.requests.length ∧ s'.requests = s.requests ++ [⟨t, i, app, echoed⟩] ∧
        (s'.slots i).pendingNonce = app.reqNonce := by
  cases h with
  | stays => exact .inl ⟨hslot, hreq, rfl⟩
  | acquires i' hphase hfree => simp [Phase.request] at hreq
  | stamps i' app echoed hphase => simp [hphase, Phase.request] at hreq
  | sends i' app echoed hphase =>
    simp only [Pool.threads_setThread_self, Phase.slot, Phase.request, Option.some.injEq]
      at hslot hreq
    subst hslot hreq
    refine .inr ⟨app, echoed, rfl, hphase, rfl, rfl, ?_⟩
    rw [Pool.slots_setThread, Pool.slots_setSlot_self]
  | enters i' r' timeoutMs hphase | expires i' r' deadline hphase hlate
  | blocks i' r' deadline hphase hearly | timesOut i' r' deadline wakeAt hphase hevent hlate
  | accepts i' r' deadline wire resp hphase htakes | discards i' r' deadline wire hphase htakes =>
    simp only [Pool.threads_setThread_self, Phase.slot, Phase.request, Option.some.injEq]
      at hslot hreq
    subst hslot hreq
    exact .inl ⟨by rw [hphase]; rfl, by rw [hphase]; rfl, rfl⟩
  | wakes i' r' deadline wakeAt hphase hevent | copies i' r' deadline hphase =>
    simp only [Pool.threads_setThread_self, Phase.slot, Phase.request, Option.some.injEq]
      at hslot hreq
    subst hslot hreq
    refine .inl ⟨by rw [hphase]; rfl, by rw [hphase]; rfl, ?_⟩
    rw [Pool.slots_setThread, Pool.slots_setSlot_self]
  | releases i' hslot' => simp [Phase.request] at hreq

/-- Where a packet in hand comes from. -/
theorem Pool.Works.inHand (h : s.Works P kSSgB t a s') {i : SlotIdx} {r deadline : Nat}
    {wire : WirePacket} (hcopied : s'.threads t = .copied i r deadline wire) :
    s.threads t = .copied i r deadline wire ∨ wire = (s.slots i).respBuf := by
  cases h with
  | stays => exact .inl hcopied
  | stamps => exact .inl hcopied
  | copies i' r' deadline' hphase =>
    rw [Pool.threads_setThread_self] at hcopied
    cases hcopied
    exact .inr rfl
  | acquires | sends | enters | expires | blocks | wakes | timesOut | accepts | discards
  | releases =>
    rw [Pool.threads_setThread_self] at hcopied
    cases hcopied

/-- How a wait ends. -/
theorem Pool.Works.result (h : s.Works P kSSgB t a s') {i : SlotIdx} {r deadline : Nat}
    {result : Option (List UInt8)} (hreturned : s'.threads t = .returned i r deadline result) :
    s.threads t = .returned i r deadline result ∨
      (result = none ∧ s.threads t = .looping i r deadline ∧ expired deadline s.clock = true) ∨
      (∃ wakeAt, result = none ∧ s.threads t = .blocked i r deadline wakeAt ∧
        (s.slots i).respEvent = false ∧ wakeAt ≤ s.clock) ∨
      ∃ wire resp, a = .filter ∧ result = some resp ∧ s.threads t = .copied i r deadline wire ∧
        s.takes P kSSgB i wire = some resp := by
  cases h with
  | stays => exact .inl hreturned
  | stamps => exact .inl hreturned
  | expires i' r' deadline' hphase hlate =>
    rw [Pool.threads_setThread_self] at hreturned
    cases hreturned
    exact .inr (.inl ⟨rfl, hphase, hlate⟩)
  | timesOut i' r' deadline' wakeAt hphase hevent hlate =>
    rw [Pool.threads_setThread_self] at hreturned
    cases hreturned
    exact .inr (.inr (.inl ⟨wakeAt, rfl, hphase, hevent, hlate⟩))
  | accepts i' r' deadline' wire resp hphase htakes =>
    rw [Pool.threads_setThread_self] at hreturned
    cases hreturned
    exact .inr (.inr (.inr ⟨wire, resp, rfl, rfl, hphase, htakes⟩))
  | acquires | sends | enters | blocks | wakes | copies | discards | releases =>
    rw [Pool.threads_setThread_self] at hreturned
    cases hreturned

/-! Who holds a slot. -/

/-- A slot that a thread holds is in use, and no other thread holds it. -/
structure Pool.Exclusive (s : Pool ι) : Prop where
  held : ∀ t i, (s.threads t).slot = some i → (s.slots i).inUse = true
  alone : ∀ t u i, (s.threads t).slot = some i → (s.threads u).slot = some i → t = u

theorem Pool.Exclusive.works (hs : s.Exclusive) (h : s.Works P kSSgB t a s') : s'.Exclusive := by
  rcases h.holds with ⟨hslot, huse⟩ | ⟨i, hfree, hslot, huse, hrest⟩ | ⟨i, hheld, hslot, hrest⟩
  · have hsame (u : ι) : (s'.threads u).slot = (s.threads u).slot := by
      by_cases hu : u = t
      · rw [hu, hslot]
      · rw [h.other hu]
    exact ⟨fun u j hj => by rw [huse]; exact hs.held u j (hsame u ▸ hj),
      fun u v j hu hv => hs.alone u v j (hsame u ▸ hu) (hsame v ▸ hv)⟩
  · -- nobody held the free slot
    have hothers (u : ι) (hu : u ≠ t) : (s'.threads u).slot ≠ some i := by
      rw [h.other hu]
      intro hheld
      exact Bool.noConfusion (hfree.symm.trans (hs.held u i hheld))
    constructor
    · intro u j hj
      by_cases hu : u = t
      · obtain rfl := Option.some.inj (hslot.symm.trans (hu ▸ hj))
        exact huse
      · have hji : j ≠ i := fun heq => hothers u hu (heq ▸ hj)
        rw [hrest j hji]
        exact hs.held u j (h.other hu ▸ hj)
    · intro u v j hu hv
      by_cases hut : u = t
      · by_cases hvt : v = t
        · rw [hut, hvt]
        · obtain rfl := Option.some.inj (hslot.symm.trans (hut ▸ hu))
          exact absurd hv (hothers v hvt)
      · by_cases hvt : v = t
        · obtain rfl := Option.some.inj (hslot.symm.trans (hvt ▸ hv))
          exact absurd hu (hothers u hut)
        · exact hs.alone u v j (h.other hut ▸ hu) (h.other hvt ▸ hv)
  · have hstill (u : ι) (j : SlotIdx) (hj : (s'.threads u).slot = some j) :
        u ≠ t ∧ (s.threads u).slot = some j := by
      have hu : u ≠ t := by
        rintro rfl
        rw [hslot] at hj
        cases hj
      exact ⟨hu, h.other hu ▸ hj⟩
    constructor
    · intro u j hj
      obtain ⟨hu, hold⟩ := hstill u j hj
      have hji : j ≠ i := fun heq => hu (hs.alone u t i (heq ▸ hold) hheld)
      rw [hrest j hji]
      exact hs.held u j hold
    · intro u v j hu hv
      exact hs.alone u v j (hstill u j hu).2 (hstill v j hv).2

/-- The slot of another thread stays as it is. -/
theorem Pool.Works.apart (h : s.Works P kSSgB t a s') (hs : s.Exclusive) {u : ι} (hu : u ≠ t)
    {j : SlotIdx} (hj : (s.threads u).slot = some j) : s'.slots j = s.slots j := by
  have hother {i : SlotIdx} (hi : (s.threads t).slot = some i) : j ≠ i :=
    fun heq => hu (hs.alone u t i (heq ▸ hj) hi)
  cases h with
  | stays | enters | expires | blocks | timesOut | accepts | discards => rfl
  | acquires i hphase hfree =>
    refine s.slots_setSlot_of_ne (fun heq => ?_) _
    exact Bool.noConfusion (hfree.symm.trans (hs.held u i (heq ▸ hj)))
  | stamps i app echoed hphase | sends i app echoed hphase
  | wakes i r deadline wakeAt hphase hevent | copies i r deadline hphase =>
    exact s.slots_setSlot_of_ne (hother (by rw [hphase]; rfl)) _
  | releases i hslot => exact s.slots_setSlot_of_ne (hother hslot) _

theorem Pool.exclusive_initial (ι : Type*) : (Pool.initial ι).Exclusive :=
  ⟨fun _ _ h => (nomatch h), fun _ _ _ h => (nomatch h)⟩

theorem Pool.Exclusive.moves (hs : s.Exclusive) {a : SlotAct ι} (h : s.Moves P kSSgB a s') :
    s'.Exclusive := by
  cases h with
  | stays => exact hs
  | works t a s' h => exact hs.works h
  | answers | passes => exact ⟨hs.held, hs.alone⟩
  | stores i wire haccepts =>
    refine ⟨fun u j hj => Eq.trans ?_ (hs.held u j hj), hs.alone⟩
    exact s.inUse_setSlot (by rfl) j

/-! Whose request it is. -/

/-- Requests and answers only come to what was there. -/
structure Pool.Grows {ι : Type*} (s s' : Pool ι) : Prop where
  requests : s.requests <+: s'.requests
  answered : s.answered ⊆ s'.answered

theorem Pool.Grows.request {ι : Type*} {s s' : Pool ι} (h : s.Grows s') {r : Nat}
    {q : SlotRequest ι} (hq : s.requests[r]? = some q) : s'.requests[r]? = some q := by
  obtain ⟨rest, hrest⟩ := h.requests
  rw [← hrest, List.getElem?_append_left (List.getElem?_eq_some_iff.mp hq).1, hq]

theorem Pool.Works.grows (h : s.Works P kSSgB t a s') : s.Grows s' := by
  refine ⟨?_, by rw [h.answered]; exact List.Subset.refl _⟩
  cases h with
  | sends i app echoed hphase => exact List.prefix_append ..
  | _ => exact List.prefix_refl _

/-- A thread with a request has sent it on its slot, the nonce of the slot is that of the request,
and what the gateway answers fits into one response. -/
structure Pool.Tracked {ι : Type*} (s : Pool ι) : Prop where
  exclusive : s.Exclusive
  own : ∀ t i r, (s.threads t).slot = some i → (s.threads t).request = some r →
    ∃ q, s.requests[r]? = some q ∧ q.sender = t ∧ q.slot = i ∧
      (s.slots i).pendingNonce = q.app.reqNonce
  bounded : ∀ r resp, (r, resp) ∈ s.answered →
    ∃ q, s.requests[r]? = some q ∧ (withNonce q.app resp).length ≤ maxInnerPayload

theorem Pool.Tracked.works (hs : s.Tracked) (h : s.Works P kSSgB t a s') : s'.Tracked := by
  have hgrows := h.grows
  refine ⟨hs.exclusive.works h, ?_, ?_⟩
  · intro u i r hslot hreq
    by_cases hu : u = t
    · subst hu
      rcases h.own hslot hreq with ⟨hslot, hreq, hnonce⟩ |
        ⟨app, echoed, rfl, hphase, rfl, hsent, hnonce⟩
      · obtain ⟨q, hq, hsender, hqi, hqn⟩ := hs.own u i r hslot hreq
        exact ⟨q, hgrows.request hq, hsender, hqi, hnonce.trans hqn⟩
      · refine ⟨⟨u, i, app, echoed⟩, ?_, rfl, rfl, hnonce⟩
        rw [hsent, List.getElem?_concat_length]
    · rw [h.other hu] at hslot hreq
      obtain ⟨q, hq, hsender, hqi, hqn⟩ := hs.own u i r hslot hreq
      refine ⟨q, hgrows.request hq, hsender, hqi, ?_⟩
      rw [h.apart hs.exclusive hu hslot]
      exact hqn
  · intro r resp hans
    obtain ⟨q, hq, hlen⟩ := hs.bounded r resp (h.answered ▸ hans)
    exact ⟨q, hgrows.request hq, hlen⟩

theorem Pool.tracked_initial (ι : Type*) : (Pool.initial ι).Tracked :=
  ⟨Pool.exclusive_initial ι, fun _ _ _ h => (nomatch h), fun _ _ h => (nomatch h)⟩

theorem Pool.Tracked.moves (hs : s.Tracked) {a : SlotAct ι} (h : s.Moves P kSSgB a s') :
    s'.Tracked := by
  have hexclusive := hs.exclusive.moves h
  cases h with
  | stays => exact hs
  | works t a s' h => exact hs.works h
  | answers r resp q hrequest hfits =>
    refine ⟨hexclusive, hs.own, fun u resp' hans => ?_⟩
    rcases List.mem_append.mp hans with hans | hans
    · exact hs.bounded u resp' hans
    · cases List.mem_singleton.mp hans
      exact ⟨q, hrequest, hfits⟩
  | stores i wire haccepts =>
    refine ⟨hexclusive, fun t j r hslot hreq => ?_, hs.bounded⟩
    rw [s.pendingNonce_setSlot (by rfl)]
    exact hs.own t j r hslot hreq
  | passes ms => exact ⟨hexclusive, hs.own, hs.bounded⟩

/-! Sample actions. -/

def sampleSlot : SlotIdx := ⟨0, senderResponsePortCount_pos⟩

def sampleSlotKey (i : SlotIdx) : AesKey := sampleMaster i

/-- A packet with this plaintext for the slot, as it arrives. -/
def slotPacket (i : SlotIdx) (plain : List UInt8) : WirePacket :=
  match cryptoAesEncrypt .sample (sampleSlotKey i) (Bytes.zero _) plain (returnPayloadSize - 2) with
  | some enc => Bytes.zero returnHeaderSize ++ returnPayload enc
  | none => Bytes.zero wirePacketSize

theorem read_slotPacket {i : SlotIdx} {plain : List UInt8}
    {enc : { c : List UInt8 // c.length ≤ returnPayloadSize - 2 }}
    (h : cryptoAesEncrypt .sample (sampleSlotKey i) (Bytes.zero _) plain (returnPayloadSize - 2) =
      some enc) :
    (slotPacket i plain).read returnHeaderSize returnPayloadSize = returnPayload enc := by
  unfold slotPacket
  rw [h]
  exact Bytes.read_append_snd _ _

/-- A heartbeat with this nonce. -/
def sampleHeartbeat (nonce : UInt8) : AppRequest :=
  ⟨.heartbeat, Bytes.fit slotNonceBytes [nonce, nonce], heartbeatKey, noData⟩

/-- Thread `t` takes a slot and sends the heartbeat. -/
def sendHeartbeat (t : Nat) (nonce : UInt8) : List (SlotAct Nat) :=
  [.worker t .acquire, .worker t (.send (sampleHeartbeat nonce) (by rfl) true),
    .worker t (.enter ⟨3000, by decide⟩), .worker t .check]

/-- Thread `t` is woken, filters what it finds and goes on waiting if that is not for it. -/
def waitOnce (t : Nat) : List (SlotAct Nat) :=
  [.worker t .wake, .worker t .copy, .worker t .filter, .worker t .check]

/-- The answer to the heartbeat. -/
def heartbeatAnswer (nonce : UInt8) (resp : List UInt8) : WirePacket :=
  slotPacket sampleSlot (pktReal :: withNonce (sampleHeartbeat nonce) resp)

end AnonSecNet.Sender
