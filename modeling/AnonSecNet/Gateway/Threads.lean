import AnonSecNet.Gateway.Handlers

/-! `handle_connection` and `pending_resp_flush_thread` of `service_gateway.c` as threads, one
critical section at a time, in any order. -/
namespace AnonSecNet.Gateway
open Octets
variable (P : Primitives)

/-- What a thread hands to `send_response_ex`. -/
inductive Outgoing where
  | reply (e : PendingResp)
  | cover (hdr : ReturnHeader) (junk : Bytes 32)
  | setupAck (hdr : ReturnHeader)
  | flushed (e : PendingResp)

namespace Outgoing

def hdr : Outgoing → ReturnHeader
  | reply e | flushed e => e.hdr
  | cover hdr _ | setupAck hdr => hdr

def flags : Outgoing → UInt8
  | cover _ _ => pktDummy
  | _ => pktReal

def resp : Outgoing → List UInt8
  | reply e | flushed e => e.resp
  | cover _ junk => junk.toList
  | setupAck _ => setupOk

/-- The response that was taken from the mailbox. -/
def taken : Outgoing → Option PendingResp
  | reply e | flushed e => some e
  | _ => none

end Outgoing

/-- The next step of a thread, with the sessions it has pinned: `sess` comes first, then
`b_sess`. The flush thread is the one at `scanning`. -/
inductive Stage where
  | lookup (pkt : WirePacket) (candidates : List (Fin maxSessions × AesKey))
  | matched (a : Fin maxSessions) (payload : List UInt8) (flags : UInt8)
  | coverFind (a : Fin maxSessions) (payload : List UInt8)
  | coverPop (a b : Fin maxSessions) (payload : List UInt8)
  | setupStore (a : Fin maxSessions) (payload : List UInt8)
  | setupFind (a : Fin maxSessions) (hdr : ReturnHeader)
  | setupVerify (a b : Fin maxSessions) (hdr : ReturnHeader)
  | setupCommit (a b : Fin maxSessions) (hdr : ReturnHeader)
  | setupClear (a : Fin maxSessions)
  | requestFind (a : Fin maxSessions) (payload : List UInt8)
  | requestStore (a b : Fin maxSessions) (payload : List UInt8)
  | relaying (a b : Fin maxSessions) (reqHdr : ReturnHeader)
  | queueing (a b : Fin maxSessions) (reqHdr : ReturnHeader) (resp : List UInt8)
  | sending (a b : Fin maxSessions) (out : Outgoing)
  | writing (a b : Fin maxSessions) (out : Outgoing) (e : Sending)
  | done (a : Fin maxSessions) (b : Option (Fin maxSessions))
  | finished
  | scanning (i : Fin maxSessions)
  | flushFind (i : Fin maxSessions) (e : PendingResp)
  | flushUnpinB (i b : Fin maxSessions)
  | flushUnpin (i : Fin maxSessions)

/-- What a step takes from outside: random bytes, what the exchange with the cache server has
left to queue (nothing for any exit before), and whether the first return hop can be reached. -/
structure Input where
  gcmNonce : Bytes gcmNonceLen
  junk : Option (Bytes 32)
  reply : Option (List UInt8)
  connected : Bool

/-- The snapshot of `find_a_session`. Irreducible, so that nothing unrolls the scan. -/
@[irreducible] def candidates (t : Table) (pkt : WirePacket) : List (Fin maxSessions × AesKey) :=
  (List.finRange maxSessions).filterMap fun i =>
    if (t i).inUse = true ∧ (t i).role = sessionRoleA ∧
        (t i).sgHint = pkt.read (wirePacketSize - sgHintBytes) sgHintBytes sgHint_within then
      some (i, (t i).e2eKey)
    else none

/-- A candidate that decrypts is checked against the live session: its slot may have been
reclaimed since the snapshot. -/
def acceptCandidate (t : Table) (pkt : WirePacket) (c : Fin maxSessions × AesKey) :
    Option (List UInt8 × UInt8) :=
  (packetSphinxUnwrap P pkt c.2).filter fun out =>
    decide ((t c.1).inUse = true ∧ (t c.1).e2eKey = c.2) && accepts P t c.1 out.1 out.2

/-- Where `send_response_ex` returns to. -/
def Outgoing.returnTo (a b : Fin maxSessions) : Outgoing → Stage
  | flushed _ => .flushUnpinB a b
  | _ => .done a (some b)

/-- What `MODE_DATA` does with the session it found. -/
def afterMatch (t : Table) (a : Fin maxSessions) (payload : List UInt8) (flags : UInt8) : Stage :=
  if isDummy flags then
    if (t a).setupDone then .coverFind a payload else .done a none
  else if payload.head? = some typeSetup then
    if payload.length < setupMinLen then .done a none else .setupStore a payload
  else if (t a).setupDone then .requestFind a payload
  else .done a none

/-- A cover packet finds the mailbox empty. -/
def afterEmpty (a b : Fin maxSessions) (payload : List UInt8) (junk : Option (Bytes 32)) : Stage :=
  if payload.length < returnHeaderSize then .done a (some b)
  else
    match junk with
    | some junk => .sending a b (.cover (Bytes.fit returnHeaderSize payload) junk)
    | none => .done a (some b)

/-- Behind `find_b_for_a`. -/
def withPartner (out : Option (Fin maxSessions) × Table) (found : Fin maxSessions → Stage)
    (none : Stage) : Table × Stage :=
  (out.2, out.1.elim none found)

/-- One critical section of a thread, or what it does between two of them. -/
def advance (t : Table) (now : Nat) (inp : Input) : Stage → Table × Stage
  | .lookup _ [] => (t, .finished)
  | .lookup pkt (c :: cs) =>
    match acceptCandidate P t pkt c with
    | some out =>
      (pin (Function.update t c.1 { t c.1 with lastActiveMs := now }) c.1, .matched c.1 out.1 out.2)
    | none => (t, .lookup pkt cs)
  | .matched a payload flags => (t, afterMatch t a payload flags)
  | .coverFind a payload =>
    withPartner (findBForA P t a) (fun b => .coverPop a b payload) (.done a none)
  | .coverPop a b payload =>
    match pendingPop t a 0 now with
    | (some e, t) => (t, .sending a b (.reply e))
    | (none, t) => (t, afterEmpty a b payload inp.junk)
  | .setupStore a payload =>
    (Function.update t a (storeSetup (t a) payload),
      .setupFind a (storeSetup (t a) payload).returnHdr)
  | .setupFind a hdr =>
    withPartner (findBForA P t a) (fun b => .setupVerify a b hdr) (.setupClear a)
  | .setupVerify a b hdr =>
    (t, if packetDeriveBindingTag P (t a).e2eKey (t b).e2eKey = (t a).bindingTag then
      .setupCommit a b hdr else .done a (some b))
  | .setupCommit a b hdr =>
    (Function.update t a { t a with bKey := (t b).e2eKey, setupDone := true, boundB := some b },
      .sending a b (.setupAck hdr))
  | .setupClear a => (Function.update t a { t a with setupDone := false }, .done a none)
  | .requestFind a payload =>
    withPartner (findBForA P t a) (fun b => .requestStore a b payload) (.done a none)
  | .requestStore a b payload =>
    if payload.length < returnHdrInPayload + 2 then (t, .done a (some b))
    else
      let reqHdr := Bytes.fit returnHeaderSize (payload.drop (ecPubkeyLen + addrBytes))
      (Function.update t a
        { t a with
          returnHdr := reqHdr
          mncAddr := Bytes.fit addrBytes (payload.drop ecPubkeyLen) },
        .relaying a b reqHdr)
  | .relaying a b reqHdr =>
    (t, match inp.reply with
      | some resp => if resp = [] then .done a (some b) else .queueing a b reqHdr resp
      | none => .done a (some b))
  | .queueing a b reqHdr resp => (sendResponse t a reqHdr resp now, .done a (some b))
  | .sending a b out =>
    (t, .writing a b out (sending t a b out.hdr out.flags out.resp inp.gcmNonce))
  | .writing a b out _ => (t, out.returnTo a b)
  | .done a b => (b.elim (unpin t a) (unpin (unpin t a)), .finished)
  | .finished => (t, .finished)
  | .scanning i =>
    if (t i).inUse = true ∧ (t i).role = sessionRoleA then
      match pendingPop t i pendingResponseMaxWaitMs now with
      | (some e, t) => (pin t i, .flushFind i e)
      | (none, t) => (t, .scanning (i + 1))
    else (t, .scanning (i + 1))
  | .flushFind i e =>
    -- without a receiving session the response is dropped
    withPartner (findBForA P t i) (fun b => .sending i b (.flushed e)) (.flushUnpin i)
  | .flushUnpinB i b => (unpin t b, .flushUnpin i)
  | .flushUnpin i => (unpin t i, .scanning i)

/-! The gateway with its threads. -/

/-- `g_sessions`, the threads and the clock, and for each slot since it was last taken by
`sess_alloc`: the responses queued, those of them written to the first return hop, and when its
session was last used, by a packet for it (role A) or by a response sent under it (role B). -/
structure SgState where
  table : Table
  threads : List Stage
  clock : Nat
  queued : Fin maxSessions → List PendingResp
  written : Fin maxSessions → List PendingResp
  used : Fin maxSessions → Option Nat

/-- `main` starts the flush thread. -/
def SgState.initial : SgState where
  table := fun _ => zeroSession
  threads := [.scanning 0]
  clock := 0
  queued := fun _ => []
  written := fun _ => []
  used := fun _ => none

inductive SgAct where
  | tick (ms : Nat)
  | extend (master : AesKey) (role : UInt8)
  | arrive (pkt : WirePacket)
  | advance (k : Nat) (inp : Input)

/-- The record of what a thread does in its next step. -/
def SgState.record (s : SgState) (inp : Input) : Stage → SgState
  | .lookup pkt (c :: _) =>
    if (acceptCandidate P s.table pkt c).isSome ∧ (s.table c.1).role = sessionRoleA then
      { s with used := Function.update s.used c.1 (some s.clock) }
    else s
  | .queueing a _ reqHdr resp =>
    if resp.length ≤ maxInnerPayload then
      { s with queued := Function.update s.queued a (s.queued a ++ [⟨resp, reqHdr, s.clock⟩]) }
    else s
  | .writing a b out e =>
    if inp.connected = true ∧ (e.packet P).isSome then
      { s with
        written := Function.update s.written a (s.written a ++ out.taken.toList)
        used := Function.update s.used b (some s.clock) }
    else s
  | _ => s

/-- `sess_alloc` and what `MODE_EXTEND` stores: one critical section. -/
def SgState.establish (s : SgState) (master : AesKey) (role : UInt8) (i : Fin maxSessions) :
    SgState :=
  { s with
    table := Function.update s.table i (extendedSession P master role s.clock)
    queued := Function.update s.queued i []
    written := Function.update s.written i []
    used := Function.update s.used i none }

def sgStep (s : SgState) : SgAct → SgState
  | .tick ms => { s with clock := s.clock + ms }
  | .extend master role =>
    match sessAlloc s.table s.clock with
    | none => s
    | some i => s.establish P master role i
  | .arrive pkt => { s with threads := s.threads ++ [.lookup pkt (candidates s.table pkt)] }
  | .advance k inp =>
    match s.threads[k]? with
    | none => s
    | some st =>
      { s.record P inp st with
        table := (advance P s.table s.clock inp st).1
        threads := s.threads.set k (advance P s.table s.clock inp st).2 }

/-! The cases of a step. -/

theorem sgStep_refused {s : SgState} (h : sessAlloc s.table s.clock = none) (master : AesKey)
    (role : UInt8) : sgStep P s (.extend master role) = s := by
  simp only [sgStep, h]

theorem sgStep_extend {s : SgState} {i : Fin maxSessions}
    (h : sessAlloc s.table s.clock = some i) (master : AesKey) (role : UInt8) :
    sgStep P s (.extend master role) = s.establish P master role i := by
  simp only [sgStep, h]

theorem sgStep_idle {s : SgState} {k : Nat} (h : s.threads[k]? = none) (inp : Input) :
    sgStep P s (.advance k inp) = s := by
  simp only [sgStep, h]

theorem sgStep_advance {s : SgState} {k : Nat} {st : Stage} (h : s.threads[k]? = some st)
    (inp : Input) :
    sgStep P s (.advance k inp)
      = { s.record P inp st with
          table := (advance P s.table s.clock inp st).1
          threads := s.threads.set k (advance P s.table s.clock inp st).2 } := by
  simp only [sgStep, h]

end AnonSecNet.Gateway
