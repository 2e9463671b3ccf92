import AnonSecNet.Gateway.Sessions

/-! `handle_connection` of `service_gateway.c` and the flush thread, as steps of the gateway.
A request for the cache server keeps its two sessions pinned until its reply is queued. -/
namespace AnonSecNet.Gateway
open Octets
variable (P : Primitives)

/-- One call of `send_response_ex`: what it reads from the two sessions, and its arguments. -/
structure Sending where
  aIdx : Fin maxSessions
  sess : SgSession
  e2eKey : AesKey
  hdr : ReturnHeader
  flags : UInt8
  resp : List UInt8
  gcmNonce : Bytes gcmNonceLen

def Sending.packet (e : Sending) : Option WirePacket :=
  sendResponseEx P e.sess.recvBlind e.e2eKey e.hdr e.flags e.resp e.gcmNonce

/-- A send from session `i` to its partner `j`. -/
def sending (t : Table) (i j : Fin maxSessions) (hdr : ReturnHeader) (flags : UInt8)
    (resp : List UInt8) (gcmNonce : Bytes gcmNonceLen) : Sending :=
  ⟨i, t i, (t j).e2eKey, hdr, flags, resp, gcmNonce⟩

/-! The mailbox. -/

/-- `send_response`: a full mailbox loses its oldest response. -/
def sendResponse (t : Table) (i : Fin maxSessions) (reqHdr : ReturnHeader) (resp : List UInt8)
    (now : Nat) : Table :=
  if maxInnerPayload < resp.length then t
  else
    let kept :=
      if (t i).pending.length = pendingRespQueue then (t i).pending.tail else (t i).pending
    Function.update t i { t i with pending := kept ++ [⟨resp, reqHdr, now⟩] }

/-- `pending_pop`. -/
def pendingPop (t : Table) (i : Fin maxSessions) (maxAgeMs now : Nat) :
    Option PendingResp × Table :=
  match (t i).pending with
  | [] => (none, t)
  | e :: rest =>
    if maxAgeMs ≠ 0 ∧ ticksSince now e.sinceMs < maxAgeMs then (none, t)
    else (some e, Function.update t i { t i with pending := rest })

/-! Cover triggers. -/

def handleCover (t : Table) (i : Fin maxSessions) (payload : List UInt8) (now : Nat)
    (junk : Bytes 32) (gcmNonce : Bytes gcmNonceLen) : Option Sending × Table :=
  if (t i).setupDone then
    match findBForA P t i with
    | (none, t) => (none, t)
    | (some j, t) =>
      match pendingPop t i 0 now with
      | (some e, t) => (some (sending t i j e.hdr pktReal e.resp gcmNonce), unpin t j)
      | (none, t) =>
        if payload.length < returnHeaderSize then (none, unpin t j)
        else
          (some (sending t i j (Bytes.fit returnHeaderSize payload) pktDummy junk.toList gcmNonce),
            unpin t j)
  else (none, t)

/-! `TYPE_SETUP`. -/

def setupMinLen : Nat :=
  1 + nPathHops * aesKeyLen + macBytes + ecPubkeyLen + addrBytes + returnHeaderSize

/-- `"SETUP_OK"` without its terminator. -/
def setupOk : List UInt8 := labelBytes "SETUP_OK"

def storeSetup (sess : SgSession) (payload : List UInt8) : SgSession :=
  { sess with
    recvBlind := fun i => Bytes.fit aesKeyLen (payload.drop (1 + i.val * aesKeyLen))
    bindingTag := setupTag payload
    mncAddr := Bytes.fit addrBytes (payload.drop (setupTagOff + macBytes + ecPubkeyLen))
    returnHdr :=
      Bytes.fit returnHeaderSize (payload.drop (setupTagOff + macBytes + ecPubkeyLen + addrBytes)) }

/-- The part of the handler behind the store: the partner is looked up and the tag verified. -/
def verifySetup (t : Table) (i : Fin maxSessions) (gcmNonce : Bytes gcmNonceLen) :
    Option Sending × Table :=
  match findBForA P t i with
  | (some j, t) =>
    if packetDeriveBindingTag P (t i).e2eKey (t j).e2eKey = (t i).bindingTag then
      let t := Function.update t i
        { t i with bKey := (t j).e2eKey, setupDone := true, boundB := some j }
      (some (sending t i j (t i).returnHdr pktReal setupOk gcmNonce), unpin t j)
    else (none, unpin t j)
  | (none, t) => (none, Function.update t i { t i with setupDone := false })

def handleSetup (t : Table) (i : Fin maxSessions) (payload : List UInt8)
    (gcmNonce : Bytes gcmNonceLen) : Option Sending × Table :=
  if payload.length < setupMinLen then (none, t)
  else verifySetup P (Function.update t i (storeSetup (t i) payload)) i gcmNonce

/-! Requests for the cache server. -/

/-- A request that is being relayed: its two pinned sessions and its own return header. -/
structure Request where
  a : Fin maxSessions
  b : Fin maxSessions
  reqHdr : ReturnHeader

/-- A request that is relayed stays pinned; the others are not begun. -/
def beginRequest (t : Table) (i : Fin maxSessions) (payload : List UInt8) :
    Option Request × Table :=
  if (t i).setupDone then
    match findBForA P t i with
    | (none, t) => (none, t)
    | (some j, t) =>
      if payload.length < returnHdrInPayload + 2 then (none, unpin t j)
      else
        let reqHdr := Bytes.fit returnHeaderSize (payload.drop (ecPubkeyLen + addrBytes))
        (some ⟨i, j, reqHdr⟩,
          Function.update t i
            { t i with
              returnHdr := reqHdr
              mncAddr := Bytes.fit addrBytes (payload.drop ecPubkeyLen) })
  else (none, t)

/-- The reply of the cache server is queued and the two sessions are unpinned. -/
def finishRequest (t : Table) (r : Request) (resp : List UInt8) (now : Nat) : Table :=
  unpin (unpin (if resp = [] then t else sendResponse t r.a r.reqHdr resp now) r.a) r.b

/-! One round of `pending_resp_flush_thread` for one session. -/

def flushPending (t : Table) (i : Fin maxSessions) (now : Nat) (gcmNonce : Bytes gcmNonceLen) :
    Option Sending × Table :=
  if (t i).inUse = true ∧ (t i).role = sessionRoleA then
    match pendingPop t i pendingResponseMaxWaitMs now with
    | (none, t) => (none, t)
    | (some e, t) =>
      match findBForA P (pin t i) i with
      | (some j, t) => (some (sending t i j e.hdr pktReal e.resp gcmNonce), unpin (unpin t j) i)
      | (none, t) => (none, unpin t i)
  else (none, t)

/-! The gateway as a machine. -/

/-- A send with the number of sessions its slot has held, and the payload of the last SETUP that
the session has stored. -/
structure Emission extends Sending where
  epoch : Nat
  setup : List UInt8

structure GwState where
  table : Table
  requests : List Request
  sent : List Emission
  epoch : Fin maxSessions → Nat
  setup : Fin maxSessions → List UInt8

def GwState.initial : GwState := ⟨fun _ => zeroSession, [], [], fun _ => 0, fun _ => []⟩

inductive GwAct where
  | extend (master : AesKey) (role : UInt8) (now : Nat)
  | receive (pkt : WirePacket) (now : Nat) (junk : Bytes 32) (gcmNonce : Bytes gcmNonceLen)
  | reply (k : Nat) (resp : List UInt8) (now : Nat)
  | flush (i : Fin maxSessions) (now : Nat) (gcmNonce : Bytes gcmNonceLen)

/-- The new table, and the send if there was one. -/
def GwState.sentOut (s : GwState) (out : Option Sending × Table) : GwState :=
  { s with
    table := out.2
    sent := s.sent ++ out.1.toList.map fun e => ⟨e, s.epoch e.aIdx, s.setup e.aIdx⟩ }

/-- What `MODE_DATA` does with the payload of the session it found. -/
def dispatch (s : GwState) (t : Table) (i : Fin maxSessions) (payload : List UInt8)
    (flags : UInt8) (now : Nat) (junk : Bytes 32) (gcmNonce : Bytes gcmNonceLen) : GwState :=
  if isDummy flags then
    let (e, t) := handleCover P t i payload now junk gcmNonce
    s.sentOut (e, unpin t i)
  else if payload.head? = some typeSetup then
    let (e, t) := handleSetup P t i payload gcmNonce
    if payload.length < setupMinLen then s.sentOut (e, unpin t i)
    else
      { s with setup := Function.update s.setup i payload }.sentOut (e, unpin t i)
  else
    match beginRequest P t i payload with
    | (some r, t) => { s with table := t, requests := s.requests ++ [r] }
    | (none, t) => { s with table := unpin t i }

def gwStep (s : GwState) : GwAct → GwState
  | .extend master role now =>
    match sessAlloc s.table now with
    | none => s
    | some i =>
      { s with
        table := Function.update s.table i (extendedSession P master role now)
        epoch := Function.update s.epoch i (s.epoch i + 1)
        setup := Function.update s.setup i [] }
  | .receive pkt now junk gcmNonce =>
    match findASession P s.table pkt now with
    | (some (i, payload, flags), t) => dispatch P s t i payload flags now junk gcmNonce
    | (none, t) => { s with table := t }
  | .reply k resp now =>
    match s.requests[k]? with
    | some r =>
      { s with table := finishRequest s.table r resp now, requests := s.requests.eraseIdx k }
    | none => s
  | .flush i now gcmNonce => s.sentOut (flushPending P s.table i now gcmNonce)

end AnonSecNet.Gateway
