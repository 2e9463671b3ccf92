import AnonSecNet.Crypto
import AnonSecNet.Foundation.Buffers

/-! `tor_mix_node.c`, the relay of the Tor baseline: the handlers of data and response cells, with
the constants of `tor_config.h`. -/
namespace AnonSecNet.Tor
open Octets Buffers

@[simp] abbrev torPortTn1 : Nat := 9040
@[simp] abbrev torPortTn2 : Nat := 9041
@[simp] abbrev torPortTn3 : Nat := 9042
@[simp] abbrev torPortSg : Nat := 9043
@[simp] abbrev torPortClient : Nat := 9044

def torModeData : UInt8 := 0x11
def torModeResponse : UInt8 := 0x12

@[simp] abbrev torHintBytes : Nat := 16
@[simp] abbrev torCellPayload : Nat := 1024
@[simp] abbrev torPortBytes : Nat := 2
@[simp] abbrev torCellOverhead : Nat := torPortBytes + torHintBytes + gcmOverhead
@[simp] abbrev torMaxHops : Nat := 3
@[simp] abbrev torMaxPayload : Nat := torCellPayload - torMaxHops * torCellOverhead
@[simp] abbrev torMaxCellSize : Nat := torCellPayload + torMaxHops * torCellOverhead

/-- What the handlers read of a slot of `g_sessions`. -/
structure TorSession where
  hint : Bytes torHintBytes
  sessionKey : AesKey
  inUse : Bool
deriving DecidableEq

def sessionFind (sessions : List TorSession) (hint : List UInt8) : Option TorSession :=
  sessions.find? fun sess => sess.inUse && decide (sess.hint.toList = hint)

/-- `net_recv_all` on a connection with these bytes still to come. -/
def recvAll (n : Nat) (input : List UInt8) : Option (List UInt8 × List UInt8) :=
  if input.length < n then none else some (input.take n, input.drop n)

/-- Which ports accept connections, and what the gateway sends back on the one over which it got
these bytes. -/
structure World where
  connects : Nat → Bool
  gateway : List UInt8 → List UInt8

/-- The messages that are sent, with their ports. -/
abbrev Sends := List (Nat × List UInt8)

variable (P : Primitives) (w : World) (sessions : List TorSession)

/-- `handle_data` up to the decrypted plaintext. -/
def readCell (input : List UInt8) : Except Fault (Option (TorSession × List UInt8)) :=
  match recvAll torHintBytes input with
  | none => .ok none
  | some (hint, input) =>
    match sessionFind sessions hint with
    | none => .ok none
    | some sess =>
      match recvAll 2 input with
      | none => .ok none
      | some (clenBytes, input) =>
        let cellLen := valueList clenBytes
        if cellLen < gcmOverhead + 2 ∨ torMaxCellSize < cellLen then .ok none
        else do
          let _cellBuf ← malloc cellLen
          match recvAll cellLen input with
          | none => return none
          | some (cell, _) =>
            let _plaintext ← malloc cellLen
            match cryptoAesDecrypt P sess.sessionKey cell cellLen with
            | none => return none
            | some plaintext =>
              if plaintext.length < 2 then return none
              return some (sess, plaintext)

/-- A cell for the next program: mode, hint, length and `len` bytes of data. -/
def buildCell (mode : UInt8) (hint : List UInt8) (hintOff : Int) (data : List UInt8)
    (dataOff len : Int) : Except Fault (List UInt8) := do
  let outBuf ← malloc (1 + torHintBytes + 2 + len)
  let outBuf ← store outBuf 0 mode
  let outBuf ← memcpy outBuf 1 hint hintOff torHintBytes
  let outBuf ← store outBuf (1 + torHintBytes) (byteOf len 1)
  let outBuf ← store outBuf (1 + torHintBytes + 1) (byteOf len 0)
  memcpy outBuf (1 + torHintBytes + 2) data dataOff len

/-- `[mode 1B][inner_len 2B][inner]` for the gateway. -/
def buildGatewayRequest (plaintext : List UInt8) (innerLen : Int) :
    Except Fault (List UInt8) := do
  let sgBuf ← malloc (1 + 2 + innerLen)
  let sgBuf ← store sgBuf 0 torModeData
  let sgBuf ← store sgBuf 1 (byteOf innerLen 1)
  let sgBuf ← store sgBuf 2 (byteOf innerLen 0)
  memcpy sgBuf 3 plaintext 2 innerLen

/-- A layer is put around `data` and the cell sent to `port`. -/
def sendResponse (sess : TorSession) (nonce : Bytes gcmNonceLen) (data : List UInt8)
    (port : Nat) : Except Fault Sends := do
  let encSize := data.length + gcmOverhead
  let _encBuf ← malloc encSize
  match cryptoAesEncrypt P sess.sessionKey nonce data encSize with
  | none => return []
  | some enc =>
    let outBuf ← buildCell torModeResponse sess.hint.toList 0 enc.1 0 enc.1.length
    return if w.connects port then [(port, outBuf)] else []

/-- The exit node: what the gateway answers goes back to the middle node. -/
def exitBranch (sess : TorSession) (nonce : Bytes gcmNonceLen) (plaintext : List UInt8) :
    Except Fault Sends :=
  if w.connects torPortSg then do
    let sgBuf ← buildGatewayRequest plaintext (plaintext.length - 2)
    match recvAll 2 (w.gateway sgBuf) with
    | none => return [(torPortSg, sgBuf)]
    | some (rlenBytes, reply) =>
      let respLen := valueList rlenBytes
      if respLen = 0 ∨ torCellPayload < respLen then return [(torPortSg, sgBuf)]
      let _respData ← malloc respLen
      match recvAll respLen reply with
      | none => return [(torPortSg, sgBuf)]
      | some (respData, _) =>
        let sends ← sendResponse P w sess nonce respData torPortTn2
        return (torPortSg, sgBuf) :: sends
  else .ok []

/-- An intermediate node: the inner cell starts with the hint for the next hop. -/
def forwardBranch (nextPort : Nat) (plaintext : List UInt8) : Except Fault Sends :=
  if w.connects nextPort then do
    let innerLen : Int := plaintext.length - 2
    let gcmLen := innerLen - torHintBytes
    let outBuf ← buildCell torModeData plaintext 2 plaintext (2 + torHintBytes) gcmLen
    return [(nextPort, outBuf)]
  else .ok []

/-- `next_port` of a plaintext. -/
def nextPortOf (plaintext : List UInt8) : Nat := valueList (plaintext.take 2)

def handleData (nonce : Bytes gcmNonceLen) (input : List UInt8) : Except Fault Sends := do
  match ← readCell P sessions input with
  | none => return []
  | some (sess, plaintext) =>
    let nextPort := nextPortOf plaintext
    if nextPort = torPortSg ∨ nextPort = 0 then exitBranch P w sess nonce plaintext
    else forwardBranch w nextPort plaintext

/-- `fwd_port` of a response. -/
def responsePort (myPort : Nat) : Nat :=
  if myPort = torPortTn3 then torPortTn2
  else if myPort = torPortTn2 then torPortTn1
  else torPortClient

/-- A response whose hint is not known is taken for the first session in use. -/
def responseSession (hint : List UInt8) : Option TorSession :=
  match sessionFind sessions hint with
  | some sess => some sess
  | none => sessions.find? (·.inUse)

def handleResponse (myPort : Nat) (nonce : Bytes gcmNonceLen) (input : List UInt8) :
    Except Fault Sends :=
  match recvAll torHintBytes input with
  | none => .ok []
  | some (hint, input) =>
    match recvAll 2 input with
    | none => .ok []
    | some (plenBytes, input) =>
      let payloadLen := valueList plenBytes
      if payloadLen = 0 ∨ torMaxCellSize < payloadLen then .ok []
      else do
        let _payload ← malloc payloadLen
        match recvAll payloadLen input with
        | none => return []
        | some (payload, _) =>
          match responseSession sessions hint with
          | none => return []
          | some sess => sendResponse P w sess nonce payload (responsePort myPort)

/-- `handle_connection`, for the two modes of cells. -/
def handleConnection (myPort : Nat) (nonce : Bytes gcmNonceLen) (input : List UInt8) :
    Except Fault Sends :=
  match input with
  | [] => .ok []
  | mode :: input =>
    if mode = torModeData then handleData P w sessions nonce input
    else if mode = torModeResponse then handleResponse P w sessions myPort nonce input
    else .ok []

/-! What the buffers hold. -/

section
omit P w sessions

theorem buildGatewayRequest_eq {plaintext : List UInt8} (h : 2 ≤ plaintext.length) :
    buildGatewayRequest plaintext (plaintext.length - 2)
      = .ok (torModeData :: bigEndianList 2 (plaintext.length - 2) ++ plaintext.drop 2) := by
  obtain ⟨len, hlen⟩ := Nat.exists_eq_add_of_le h
  have hint : (plaintext.length : Int) - 2 = len := by omega
  have hnat : plaintext.length - 2 = len := by omega
  rw [hint, hnat, ← byteOf_two]
  unfold buildGatewayRequest
  rw [malloc_eq (n := 1 + 2 + len) (by push_cast; ring), ok_bind,
    store_next (by simp) (by simp), ok_bind,
    store_next (by simp) (by simp; omega), ok_bind,
    store_next (by simp) (by simp; omega), ok_bind,
    memcpy_next (by simp) (by simp) (by simp) hlen.ge (by simp), filled_all (by simp; omega),
    List.take_of_length_le (by simp; omega)]
  rfl

theorem buildCell_eq (mode : UInt8) {hint data : List UInt8} {hintOff dataOff len : Nat}
    (hhint : hintOff + torHintBytes ≤ hint.length) (hdata : dataOff + len ≤ data.length) :
    buildCell mode hint hintOff data dataOff len
      = .ok (mode :: (hint.drop hintOff).take torHintBytes ++ bigEndianList 2 len
        ++ (data.drop dataOff).take len) := by
  have hlen : ((hint.drop hintOff).take torHintBytes).length = torHintBytes := by
    rw [List.length_take, List.length_drop]
    omega
  rw [← byteOf_two]
  unfold buildCell
  have hpiece : ((data.drop dataOff).take len).length = len := by
    rw [List.length_take, List.length_drop]
    omega
  rw [malloc_eq (n := 1 + torHintBytes + 2 + len) (by push_cast; ring), ok_bind,
    store_next (by simp) (by simp), ok_bind,
    memcpy_next (by simp) (by simp) (by simp) hhint (by simp; omega), ok_bind]
  generalize (hint.drop hintOff).take torHintBytes = hintField at hlen ⊢
  rw [store_next (by simp [hlen]) (by simp [hlen]; omega), ok_bind,
    store_next (by simp [hlen]) (by simp [hlen]; omega), ok_bind,
    memcpy_next (by simp [hlen]) (by simp) (by simp) hdata (by simp [hlen])]
  generalize (data.drop dataOff).take len = piece at hpiece ⊢
  rw [filled_all (by simp [hlen, hpiece]; omega)]
  simp

end

theorem sendResponse_eq (sess : TorSession) (nonce : Bytes gcmNonceLen) (data : List UInt8)
    (port : Nat) : ∃ enc,
      cryptoAesEncrypt P sess.sessionKey nonce data (data.length + gcmOverhead) = some enc ∧
      sendResponse P w sess nonce data port = .ok (if w.connects port then
        [(port, torModeResponse :: sess.hint.toList ++ bigEndianList 2 enc.1.length ++ enc.1)]
        else []) := by
  obtain ⟨enc, henc, -⟩ := cryptoAesEncrypt_of_fits P sess.sessionKey nonce data _ le_rfl
  refine ⟨enc, henc, ?_⟩
  have hcell : buildCell torModeResponse sess.hint.toList (0 : Nat) enc.1 (0 : Nat) enc.1.length
      = _ := buildCell_eq torModeResponse (by simp) (by simp)
  rw [List.drop_zero, List.drop_zero, List.take_of_length_le (by simp),
    List.take_of_length_le le_rfl] at hcell
  unfold sendResponse
  dsimp only
  rw [malloc_eq rfl, ok_bind, henc]
  change (buildCell _ _ (0 : Nat) _ (0 : Nat) _ >>= _) = _
  rw [hcell]
  rfl

end AnonSecNet.Tor
