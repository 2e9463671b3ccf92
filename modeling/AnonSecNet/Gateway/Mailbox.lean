import AnonSecNet.Foundation.Machine
import AnonSecNet.Foundation.RingBuffer
import AnonSecNet.Gateway.Handlers

/-! The ring of pending responses of a session of `service_gateway.c`, as it lies in memory, under
the threads that enqueue, pop and reclaim. Each of them holds `g_sess_lock` meanwhile, so that an
interleaving is a list of these operations. -/
namespace AnonSecNet.Gateway
open Octets Machine

instance : NeZero pendingRespQueue := ⟨by decide⟩

/-- `pending_resp_t`: behind a short response the buffer keeps what was there. -/
structure PendingCell where
  resp : Bytes maxInnerPayload
  len : Nat
  hdr : ReturnHeader
  sinceMs : Nat
  len_le : len ≤ maxInnerPayload

namespace PendingCell

def zero : PendingCell := ⟨Bytes.zero _, 0, Bytes.zero _, 0, Nat.zero_le _⟩

/-- The bytes of a cell that are read. -/
def entry (c : PendingCell) : PendingResp := ⟨c.resp.toList.take c.len, c.hdr, c.sinceMs⟩

def fill (reqHdr : ReturnHeader) (resp : List UInt8) (now : Nat)
    (h : resp.length ≤ maxInnerPayload) (c : PendingCell) : PendingCell :=
  ⟨Bytes.fit maxInnerPayload (resp ++ c.resp.toList.drop resp.length), resp.length, reqHdr, now, h⟩

theorem entry_fill (reqHdr : ReturnHeader) (resp : List UInt8) (now : Nat)
    (h : resp.length ≤ maxInnerPayload) (c : PendingCell) :
    (fill reqHdr resp now h c).entry = ⟨resp, reqHdr, now⟩ := by
  have htake : (Bytes.fit maxInnerPayload (resp ++ c.resp.toList.drop resp.length)).toList.take
      resp.length = resp := by
    simp only [Bytes.fit, List.take_take, Nat.min_eq_left h, List.append_assoc]
    exact List.take_left
  simp only [entry, fill, htake]

end PendingCell

/-- The fields of a slot of `g_sessions` that `pending_resp_flush_thread` reads. -/
structure BoxSlot where
  inUse : Bool
  role : UInt8
  ring : RingBuffer PendingCell pendingRespQueue

namespace BoxSlot

def zero : BoxSlot := ⟨false, 0, RingBuffer.empty PendingCell.zero⟩

/-- After `memset` by `sess_alloc`. -/
def taken (role : UInt8) : BoxSlot := { zero with inUse := true, role := role }

def waiting (b : BoxSlot) : List PendingResp := b.ring.contents.map PendingCell.entry

def sendResponse (b : BoxSlot) (reqHdr : ReturnHeader) (resp : List UInt8) (now : Nat) : BoxSlot :=
  if h : resp.length ≤ maxInnerPayload then
    { b with ring := b.ring.push (PendingCell.fill reqHdr resp now h) }
  else b

/-- The entry is copied out before the head moves. -/
def pendingPop (b : BoxSlot) (maxAgeMs now : Nat) : Option PendingCell × BoxSlot :=
  match b.ring.front with
  | none => (none, b)
  | some e =>
    if maxAgeMs ≠ 0 ∧ ticksSince now e.sinceMs < maxAgeMs then (none, b)
    else (some e, { b with ring := b.ring.dropFront })

/-! In memory as in the list of the session table. -/

theorem length_waiting (b : BoxSlot) : b.waiting.length = b.ring.count := by simp [waiting]

@[simp] theorem waiting_taken (role : UInt8) : (taken role).waiting = [] := rfl

theorem waiting_sendResponse {b : BoxSlot} {reqHdr : ReturnHeader} {resp : List UInt8} {now : Nat}
    (h : resp.length ≤ maxInnerPayload) :
    (b.sendResponse reqHdr resp now).waiting
      = (if b.waiting.length = pendingRespQueue then b.waiting.tail else b.waiting)
          ++ [⟨resp, reqHdr, now⟩] := by
  rw [length_waiting]
  simp only [sendResponse, dif_pos h, waiting]
  exact b.ring.map_contents_push _ _ _ (PendingCell.entry_fill reqHdr resp now h)

theorem sendResponse_refines {b : BoxSlot} {t : Table} {i : Fin maxSessions}
    (h : b.waiting = (t i).pending) (reqHdr : ReturnHeader) (resp : List UInt8) (now : Nat) :
    (b.sendResponse reqHdr resp now).waiting
      = (Gateway.sendResponse t i reqHdr resp now i).pending := by
  unfold Gateway.sendResponse
  by_cases hlen : resp.length ≤ maxInnerPayload
  · rw [if_neg (Nat.not_lt.mpr hlen), waiting_sendResponse hlen, Function.update_self, h]
  · rw [if_pos (Nat.not_le.mp hlen), ← h, sendResponse, dif_neg hlen]

theorem head_waiting (b : BoxSlot) : b.waiting.head? = b.ring.front.map PendingCell.entry := by
  rw [waiting, List.head?_map, RingBuffer.front_eq_head]

theorem waiting_dropFront (b : BoxSlot) :
    waiting { b with ring := b.ring.dropFront } = b.waiting.tail := by
  simp only [waiting, RingBuffer.contents_dropFront, List.map_tail]

theorem pendingPop_refines {b : BoxSlot} {t : Table} {i : Fin maxSessions}
    (h : b.waiting = (t i).pending) (maxAgeMs now : Nat) :
    (b.pendingPop maxAgeMs now).1.map PendingCell.entry = (Gateway.pendingPop t i maxAgeMs now).1 ∧
      (b.pendingPop maxAgeMs now).2.waiting
        = ((Gateway.pendingPop t i maxAgeMs now).2 i).pending := by
  have hhead := b.head_waiting
  rw [h] at hhead
  unfold Gateway.pendingPop pendingPop
  cases hp : (t i).pending with
  | nil =>
    rw [hp, List.head?_nil] at hhead
    rw [Option.map_eq_none_iff.mp hhead.symm]
    exact ⟨rfl, by rw [h, hp]⟩
  | cons e rest =>
    rw [hp, List.head?_cons] at hhead
    obtain ⟨c, hfront, rfl⟩ := Option.map_eq_some_iff.mp hhead.symm
    have hsince : c.entry.sinceMs = c.sinceMs := rfl
    simp only [hfront, hsince]
    by_cases hwait : maxAgeMs ≠ 0 ∧ ticksSince now c.sinceMs < maxAgeMs
    · rw [if_pos hwait, if_pos hwait]
      exact ⟨rfl, h⟩
    · rw [if_neg hwait, if_neg hwait]
      refine ⟨rfl, ?_⟩
      rw [waiting_dropFront, h, hp]
      simp only [Function.update_self, List.tail_cons]

/-- A pop takes the oldest response, or nothing. -/
theorem pendingPop_cases (b : BoxSlot) (maxAgeMs now : Nat) :
    b.pendingPop maxAgeMs now = (none, b) ∧ (maxAgeMs = 0 → b.waiting = []) ∨
      ∃ e, (b.pendingPop maxAgeMs now).1 = some e ∧
        b.waiting = e.entry :: (b.pendingPop maxAgeMs now).2.waiting := by
  have hhead := b.head_waiting
  unfold pendingPop
  cases hfront : b.ring.front with
  | none =>
    rw [hfront] at hhead
    exact Or.inl ⟨rfl, fun _ => List.head?_eq_none_iff.mp hhead⟩
  | some e =>
    rw [hfront] at hhead
    by_cases hwait : maxAgeMs ≠ 0 ∧ ticksSince now e.sinceMs < maxAgeMs
    · simp only [if_pos hwait]
      exact Or.inl ⟨trivial, fun hzero => absurd hzero hwait.1⟩
    · simp only [if_neg hwait, waiting_dropFront]
      exact Or.inr ⟨e, rfl, List.eq_cons_of_mem_head? hhead⟩

end BoxSlot

/-! The slot with a record of every response that was queued and of how it left. -/

inductive Fate where
  | popped
  | overflowed
  | reclaimed
deriving DecidableEq

structure BoxState where
  slot : BoxSlot
  enqueued : List PendingResp
  left : List (PendingResp × Fate)

def BoxState.initial : BoxState := ⟨BoxSlot.zero, [], []⟩

/-- A handler that queues the reply to its request, one that has a cover packet, the flush thread,
and `sess_alloc` when it takes the slot for a session. -/
inductive BoxAct where
  | sendResponse (reqHdr : ReturnHeader) (resp : List UInt8) (now : Nat)
  | cover (now : Nat)
  | flush (now : Nat)
  | sessAlloc (role : UInt8)

def BoxState.popped (s : BoxState) (out : Option PendingCell × BoxSlot) : BoxState :=
  { s with
    slot := out.2
    left := s.left ++ out.1.toList.map fun e => (e.entry, .popped) }

def boxStep (s : BoxState) : BoxAct → BoxState
  | .sendResponse reqHdr resp now =>
    if resp.length ≤ maxInnerPayload then
      { slot := s.slot.sendResponse reqHdr resp now
        enqueued := s.enqueued ++ [⟨resp, reqHdr, now⟩]
        left := s.left ++
          if s.slot.ring.count = pendingRespQueue then
            s.slot.ring.front.toList.map fun e => (e.entry, .overflowed)
          else [] }
    else s
  | .cover now => s.popped (s.slot.pendingPop 0 now)
  | .flush now =>
    if s.slot.inUse = true ∧ s.slot.role = sessionRoleA then
      s.popped (s.slot.pendingPop pendingResponseMaxWaitMs now)
    else s
  | .sessAlloc role =>
    { s with
      slot := BoxSlot.taken role
      left := s.left ++ s.slot.ring.contents.map fun e => (e.entry, .reclaimed) }

/-! What one step does. -/

def BoxState.waiting (s : BoxState) : List PendingResp := s.slot.waiting

/-- What an operation adds behind the others. -/
def queues : BoxAct → List PendingResp
  | .sendResponse reqHdr resp now =>
    if resp.length ≤ maxInnerPayload then [⟨resp, reqHdr, now⟩] else []
  | _ => []

/-- What may leave a mailbox: the oldest response when it is full and another comes, the oldest
one when a thread pops, and all of them when the slot is reclaimed. -/
def MayLeave (waiting : List PendingResp) (out : List (PendingResp × Fate)) : BoxAct → Prop
  | .sendResponse _ resp _ =>
    out = if resp.length ≤ maxInnerPayload ∧ waiting.length = pendingRespQueue then
      (waiting.take 1).map (·, .overflowed) else []
  | .cover _ => out = (waiting.take 1).map (·, .popped)
  | .flush _ => out = [] ∨ out = (waiting.take 1).map (·, .popped)
  | .sessAlloc _ => out = waiting.map (·, .reclaimed)

/-- An operation takes from the front and adds at the back. -/
structure BoxMoves (s : BoxState) (act : BoxAct) (s' : BoxState) : Prop where
  leaves : ∃ out, MayLeave s.waiting out act ∧ s'.left = s.left ++ out ∧
    out.map Prod.fst ++ s'.waiting = s.waiting ++ queues act
  enqueues : s'.enqueued = s.enqueued ++ queues act

theorem moves_popped (s : BoxState) (maxAgeMs now : Nat) :
    ∃ out, (out = [] ∨ out = (s.waiting.take 1).map (·, Fate.popped)) ∧
      (maxAgeMs = 0 → out = (s.waiting.take 1).map (·, Fate.popped)) ∧
      (s.popped (s.slot.pendingPop maxAgeMs now)).left = s.left ++ out ∧
      out.map Prod.fst ++ (s.popped (s.slot.pendingPop maxAgeMs now)).waiting = s.waiting := by
  obtain ⟨hpop, hempty⟩ | ⟨e, hpop, hwaiting⟩ := s.slot.pendingPop_cases maxAgeMs now
  · refine ⟨[], Or.inl rfl, ?_, ?_, ?_⟩
    · intro hzero
      rw [BoxState.waiting, hempty hzero]
      rfl
    · simp [BoxState.popped, hpop]
    · simp [BoxState.popped, BoxState.waiting, hpop]
  · have hout : (s.waiting.take 1).map (·, Fate.popped) = [(e.entry, .popped)] := by
      rw [BoxState.waiting, hwaiting]
      rfl
    refine ⟨[(e.entry, .popped)], Or.inr hout.symm, fun _ => hout.symm, ?_, ?_⟩
    · simp [BoxState.popped, hpop]
    · exact hwaiting.symm

theorem moves_sendResponse (s : BoxState) (reqHdr : ReturnHeader) {resp : List UInt8} (now : Nat)
    (hlen : resp.length ≤ maxInnerPayload) :
    BoxMoves s (.sendResponse reqHdr resp now) (boxStep s (.sendResponse reqHdr resp now)) := by
  have hstep : boxStep s (.sendResponse reqHdr resp now) = _ := if_pos hlen
  have hqueues : queues (.sendResponse reqHdr resp now) = [⟨resp, reqHdr, now⟩] := if_pos hlen
  have hcount : s.waiting.length = s.slot.ring.count := s.slot.length_waiting
  have hfront : s.slot.ring.front.toList.map (fun e => (e.entry, Fate.overflowed))
      = (s.waiting.take 1).map (·, .overflowed) := by
    rw [List.take_one, BoxState.waiting, s.slot.head_waiting]
    cases s.slot.ring.front <;> rfl
  have hwaiting : (s.slot.sendResponse reqHdr resp now).waiting
      = (if s.waiting.length = pendingRespQueue then s.waiting.tail else s.waiting)
        ++ [⟨resp, reqHdr, now⟩] := BoxSlot.waiting_sendResponse hlen
  rw [hstep]
  refine ⟨⟨_, rfl, ?_, ?_⟩, congrArg (s.enqueued ++ ·) hqueues.symm⟩
  · rw [hfront]
    simp only [hlen, hcount, true_and]
  · rw [hqueues]
    change _ ++ (s.slot.sendResponse reqHdr resp now).waiting = _
    rw [hwaiting]
    by_cases hfull : s.waiting.length = pendingRespQueue
    · rw [if_pos ⟨hlen, hfull⟩, if_pos hfull, List.map_map, ← List.append_assoc]
      congr 1
      cases s.waiting <;> simp
    · rw [if_neg fun h => hfull h.2, if_neg hfull, List.map_nil, List.nil_append]

theorem boxStep_moves (s : BoxState) (act : BoxAct) : BoxMoves s act (boxStep s act) := by
  cases act with
  | sendResponse reqHdr resp now =>
    by_cases hlen : resp.length ≤ maxInnerPayload
    · exact moves_sendResponse s reqHdr now hlen
    · have hstep : boxStep s (.sendResponse reqHdr resp now) = s := if_neg hlen
      have hqueues : queues (.sendResponse reqHdr resp now) = [] := if_neg hlen
      rw [hstep]
      refine ⟨⟨[], ?_, (List.append_nil _).symm, ?_⟩, ?_⟩
      · exact (if_neg fun hfull => hlen hfull.1).symm
      · rw [hqueues, List.append_nil, List.map_nil, List.nil_append]
      · rw [hqueues, List.append_nil]
  | cover now =>
    obtain ⟨out, -, hout, hleft, hwaiting⟩ := moves_popped s 0 now
    exact ⟨⟨out, hout rfl, hleft, hwaiting.trans (List.append_nil _).symm⟩,
      (List.append_nil _).symm⟩
  | flush now =>
    by_cases hrole : s.slot.inUse = true ∧ s.slot.role = sessionRoleA
    · obtain ⟨out, hout, -, hleft, hwaiting⟩ := moves_popped s pendingResponseMaxWaitMs now
      have hstep : boxStep s (.flush now) = _ := if_pos hrole
      rw [hstep]
      exact ⟨⟨out, hout, hleft, hwaiting.trans (List.append_nil _).symm⟩,
        (List.append_nil _).symm⟩
    · have hstep : boxStep s (.flush now) = s := if_neg hrole
      rw [hstep]
      exact ⟨⟨[], Or.inl rfl, (List.append_nil _).symm, (List.append_nil _).symm⟩,
        (List.append_nil _).symm⟩
  | sessAlloc role =>
    refine ⟨⟨s.waiting.map (·, .reclaimed), rfl, ?_, ?_⟩, (List.append_nil _).symm⟩
    · simp [boxStep, BoxState.waiting, BoxSlot.waiting]
    · simp [boxStep, BoxState.waiting, queues, Function.comp_def]

/-! Whole runs. -/

/-- The ring never holds more than it has room for; what left it and what waits are the responses
that were queued, in that order; and a response leaves only when `MayLeave` says so. -/
structure BoundedFifo (s : BoxState) : Prop where
  bounded : s.waiting.length ≤ pendingRespQueue
  inOrder : s.left.map Prod.fst ++ s.waiting = s.enqueued
  moves : ∀ act, BoxMoves s act (boxStep s act)

theorem boxStep_inOrder {s : BoxState} (h : s.left.map Prod.fst ++ s.waiting = s.enqueued)
    (act : BoxAct) :
    (boxStep s act).left.map Prod.fst ++ (boxStep s act).waiting = (boxStep s act).enqueued := by
  obtain ⟨⟨out, -, hleft, hwaiting⟩, henqueued⟩ := boxStep_moves s act
  calc (boxStep s act).left.map Prod.fst ++ (boxStep s act).waiting
      = s.left.map Prod.fst ++ (out.map Prod.fst ++ (boxStep s act).waiting) := by
        rw [hleft, List.map_append, List.append_assoc]
    _ = s.enqueued ++ queues act := by rw [hwaiting, ← List.append_assoc, h]
    _ = (boxStep s act).enqueued := henqueued.symm

theorem pending_ring_fifo (acts : List BoxAct) :
    Along boxStep BoundedFifo acts BoxState.initial := by
  have hfifo : ∀ s : BoxState, s.left.map Prod.fst ++ s.waiting = s.enqueued → BoundedFifo s :=
    fun s hs => ⟨s.slot.length_waiting.trans_le s.slot.ring.count_le, hs, boxStep_moves s⟩
  suffices hrun : ∀ (acts : List BoxAct) (s : BoxState),
      s.left.map Prod.fst ++ s.waiting = s.enqueued → Along boxStep BoundedFifo acts s from
    hrun acts BoxState.initial rfl
  intro acts
  induction acts with
  | nil => exact hfifo
  | cons act acts ih => exact fun s hs => ⟨hfifo s hs, ih _ (boxStep_inOrder hs act)⟩

end AnonSecNet.Gateway
