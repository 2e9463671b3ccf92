import AnonSecNet.Tor.MixNode
import Mathlib.Data.List.TakeWhile

/-! The programs at both ends of a circuit of the Tor baseline, `tor_client.c` and `tor_sg.c`, and
the way of a payload through the three relays and back. -/
namespace AnonSecNet.Tor
open Octets Buffers
variable (P : Primitives)

/-- What the client uses of an entry of `g_hops`. -/
structure Hop where
  key : AesKey
  hint : Bytes torHintBytes

/-- One layer, into a buffer of the size it needs. -/
def sealLayer (key : AesKey) (nonce : Bytes gcmNonceLen) (plaintext : List UInt8) :
    Option (List UInt8) :=
  (cryptoAesEncrypt P key nonce plaintext (plaintext.length + gcmOverhead)).map Subtype.val

def buildForwardCell (hops : Fin torMaxHops → Hop) (nonce : Fin torMaxHops → Bytes gcmNonceLen)
    (payload : List UInt8) (outSize : Nat) : Option (List UInt8) := do
  let l3Enc ← sealLayer P (hops 2).key (nonce 2) (bigEndianList 2 torPortSg ++ payload)
  let l2Enc ← sealLayer P (hops 1).key (nonce 1)
    (bigEndianList 2 torPortTn3 ++ (hops 2).hint.toList ++ l3Enc)
  let l1Enc ← sealLayer P (hops 0).key (nonce 0)
    (bigEndianList 2 torPortTn2 ++ (hops 1).hint.toList ++ l2Enc)
  if outSize < torHintBytes + 2 + l1Enc.length then none
  else some ((hops 0).hint.toList ++ bigEndianList 2 l1Enc.length ++ l1Enc)

def peelLayers : List Hop → List UInt8 → Option (List UInt8)
  | [], cur => some cur
  | hop :: hops, cur => do
    let pt ← cryptoAesDecrypt P hop.key cur cur.length
    peelLayers hops pt

def peelResponse (hops : Fin torMaxHops → Hop) (encData : List UInt8) (outSize : Nat) :
    Option (List UInt8) := do
  let cur ← peelLayers P (List.ofFn hops) encData
  if outSize < cur.length then none else some cur

/-- A connection of `response_listener`. -/
def responseListener (hops : Fin torMaxHops → Hop) (input : List UInt8) : Option (List UInt8) := do
  let (_mode, input) ← recvAll 1 input
  let (_hint, input) ← recvAll torHintBytes input
  let (plenBytes, input) ← recvAll 2 input
  let (encBuf, _) ← recvAll (valueList plenBytes) input
  peelResponse P hops encBuf torCellPayload

/-! The gateway. -/

def sgEchoPrefix : List UInt8 := "SG-ECHO: ".toList.map fun c => UInt8.ofNat c.toNat

/-- The payload that `handle_sg_conn` reads. -/
def sgReceive (input : List UInt8) : Option (List UInt8) := do
  let (mode, input) ← recvAll 1 input
  if mode = [torModeData] then
    let (plenBytes, input) ← recvAll 2 input
    let plen := valueList plenBytes
    if torCellPayload < plen then none
    else
      let (payload, _) ← recvAll plen input
      some payload
  else none

/-- The response to it. `snprintf` returns the length of the whole text, the buffer has room for
all but the last of `TOR_CELL_PAYLOAD` bytes. -/
def sgEcho (payload : List UInt8) : Except Fault (List UInt8) := do
  let text := sgEchoPrefix ++ payload.takeWhile (· ≠ 0)
  let response := filled (text.take (torCellPayload - 1) ++ [0]) torCellPayload
  let rlen := text.length
  let respBuf ← malloc (2 + rlen)
  let respBuf ← store respBuf 0 (byteOf rlen 1)
  let respBuf ← store respBuf 1 (byteOf rlen 0)
  memcpy respBuf 2 response 0 rlen

def handleSgConn (input : List UInt8) : Except Fault (List UInt8) :=
  match sgReceive input with
  | none => .ok []
  | some payload => sgEcho payload

/-- Everybody listens, and the gateway answers. -/
def circuitWorld : World where
  connects _ := true
  gateway input :=
    match handleSgConn input with
    | .ok sent => sent
    | .error _ => []

/-- The relay has the session of this hop and no other. -/
def OnlySession (sessions : List TorSession) (hop : Hop) : Prop :=
  ∃ before after, sessions = before ++ ⟨hop.hint, hop.key, true⟩ :: after ∧
    ∀ sess ∈ before ++ after, sess.inUse = false

/-! Layers. -/

/-- A layer under the key of the session, with what decrypts from it. -/
structure Layer (hop : Hop) (plaintext enc : List UInt8) : Prop where
  length : enc.length = plaintext.length + gcmOverhead
  decrypt : ∀ outSize, plaintext.length ≤ outSize →
    cryptoAesDecrypt P hop.key enc outSize = some plaintext

theorem sealLayer_eq (hop : Hop) (nonce : Bytes gcmNonceLen) (plaintext : List UInt8) :
    ∃ enc, sealLayer P hop.key nonce plaintext = some enc ∧ Layer P hop plaintext enc := by
  obtain ⟨enc, henc, hlength⟩ := cryptoAesEncrypt_of_fits P hop.key nonce plaintext _ le_rfl
  refine ⟨enc.1, ?_, hlength, fun outSize hout => cryptoAesDecrypt_encrypt P henc hout⟩
  unfold sealLayer
  rw [henc]
  rfl

theorem peelLayers_cons {hop : Hop} {plaintext enc : List UInt8}
    (hlayer : Layer P hop plaintext enc) (hops : List Hop) :
    peelLayers P (hop :: hops) enc = peelLayers P hops plaintext := by
  have hlength := hlayer.length
  change (cryptoAesDecrypt P hop.key enc enc.length >>= peelLayers P hops) = _
  rw [hlayer.decrypt enc.length (by omega)]
  rfl

/-! Reading a cell. -/

section
omit P

theorem recvAll_append {field : List UInt8} {n : Nat} (h : field.length = n)
    (rest : List UInt8) : recvAll n (field ++ rest) = some (field, rest) := by
  unfold recvAll
  rw [if_neg (by rw [List.length_append]; omega), List.take_left' h, List.drop_left' h]

theorem valueList_two {n : Nat} (h : n < 65536) : valueList (bigEndianList 2 n) = n := by
  rw [valueList_bigEndianList]
  exact Nat.mod_eq_of_lt h

theorem nextPortOf_append {port : Nat} (h : port < 65536) (rest : List UInt8) :
    nextPortOf (bigEndianList 2 port ++ rest) = port := by
  unfold nextPortOf
  rw [List.take_left' (length_bigEndianList 2 port), valueList_two h]

theorem OnlySession.find {sessions : List TorSession} {hop : Hop} (h : OnlySession sessions hop)
    (p : TorSession → Bool) (hp : ∀ sess, p sess = true → sess.inUse = true)
    (hhop : p ⟨hop.hint, hop.key, true⟩ = true) :
    sessions.find? p = some ⟨hop.hint, hop.key, true⟩ := by
  obtain ⟨before, after, rfl, hidle⟩ := h
  have hnone : before.find? p = none := by
    refine List.find?_eq_none.mpr fun sess hsess htrue => ?_
    have := hidle sess (List.mem_append_left _ hsess)
    rw [hp sess htrue] at this
    cases this
  rw [List.find?_append, hnone, List.find?_cons_of_pos hhop]
  rfl

theorem OnlySession.sessionFind {sessions : List TorSession} {hop : Hop}
    (h : OnlySession sessions hop) :
    sessionFind sessions hop.hint.toList = some ⟨hop.hint, hop.key, true⟩ := by
  refine h.find _ (fun sess hsess => ?_) (by simp)
  rw [Bool.and_eq_true] at hsess
  exact hsess.1

/-- Whatever hint a response carries. -/
theorem OnlySession.responseSession {sessions : List TorSession} {hop : Hop}
    (h : OnlySession sessions hop) (hint : List UInt8) :
    responseSession sessions hint = some ⟨hop.hint, hop.key, true⟩ := by
  unfold Tor.responseSession
  split
  · rename_i sess hfound
    have hin := List.find?_some hfound
    rw [Bool.and_eq_true] at hin
    obtain ⟨before, after, rfl, hidle⟩ := h
    have hmem := List.mem_of_find?_eq_some hfound
    obtain hmem | hmem := List.mem_append.mp hmem
    · rw [hidle sess (List.mem_append_left _ hmem)] at hin
      cases hin.1
    · obtain rfl | hmem := List.mem_cons.mp hmem
      · rfl
      · rw [hidle sess (List.mem_append_right _ hmem)] at hin
        cases hin.1
  · exact h.find _ (fun _ hsess => hsess) rfl

theorem recvAll_all (field : List UInt8) : recvAll field.length field = some (field, []) := by
  have hall : recvAll field.length (field ++ []) = some (field, []) := recvAll_append rfl []
  rw [List.append_nil] at hall
  exact hall

end

section
variable {P} {sessions : List TorSession} {hop : Hop} {plaintext enc : List UInt8}

theorem readCell_sent (h : OnlySession sessions hop) (hlayer : Layer P hop plaintext enc)
    (hshort : 2 ≤ plaintext.length) (hmax : enc.length ≤ torMaxCellSize) :
    readCell P sessions (hop.hint.toList ++ bigEndianList 2 enc.length ++ enc)
      = .ok (some (⟨hop.hint, hop.key, true⟩, plaintext)) := by
  have hlength := hlayer.length
  unfold readCell
  rw [List.append_assoc, recvAll_append hop.hint.length_eq]
  dsimp only
  rw [h.sessionFind]
  dsimp only
  rw [recvAll_append (length_bigEndianList 2 enc.length)]
  dsimp only
  rw [valueList_two (hmax.trans_lt (by decide)), if_neg (by omega), malloc_eq rfl, ok_bind,
    recvAll_all]
  dsimp only
  rw [ok_bind, hlayer.decrypt _ (by omega)]
  dsimp only
  rw [if_neg (by omega)]
  rfl

/-- A relay passes the inner cell on to the port in front of it. -/
theorem handleConnection_forward (w : World) (h : OnlySession sessions hop) {port : Nat}
    {hint : Bytes torHintBytes} {inner : List UInt8}
    (hlayer : Layer P hop (bigEndianList 2 port ++ hint.toList ++ inner) enc)
    (hmax : enc.length ≤ torMaxCellSize) (hport : port < 65536)
    (hrelay : ¬ (port = torPortSg ∨ port = 0)) (hconnects : w.connects port = true)
    (myPort : Nat) (nonce : Bytes gcmNonceLen) :
    handleConnection P w sessions myPort nonce
        (torModeData :: (hop.hint.toList ++ bigEndianList 2 enc.length ++ enc))
      = .ok [(port, torModeData :: (hint.toList ++ bigEndianList 2 inner.length ++ inner))] := by
  have hlength : (bigEndianList 2 port ++ hint.toList ++ inner).length
      = 2 + torHintBytes + inner.length := by
    rw [List.length_append, List.length_append, length_bigEndianList, hint.length_eq]
  have hcell : buildCell torModeData (bigEndianList 2 port ++ hint.toList ++ inner) (2 : Nat)
      (bigEndianList 2 port ++ hint.toList ++ inner) (2 + torHintBytes : Nat) inner.length = _ :=
    buildCell_eq torModeData (by omega) hlength.ge
  have hgcm : ((bigEndianList 2 port ++ hint.toList ++ inner).length : Int) - 2 - torHintBytes
      = inner.length := by omega
  have hread := readCell_sent h hlayer (by omega) hmax
  unfold handleConnection handleData
  dsimp only
  rw [if_pos rfl, hread, ok_bind]
  dsimp only
  rw [List.append_assoc, nextPortOf_append hport, if_neg hrelay, ← List.append_assoc]
  unfold forwardBranch
  rw [if_pos hconnects]
  dsimp only
  rw [hgcm]
  change (buildCell _ _ (2 : Nat) _ (2 + torHintBytes : Nat) _ >>= _) = _
  rw [hcell, ok_bind]
  have hhint : ((bigEndianList 2 port ++ hint.toList ++ inner).drop 2).take torHintBytes
      = hint.toList := by
    rw [List.append_assoc, List.drop_left' (length_bigEndianList 2 port),
      List.take_left' hint.length_eq]
  have hinner : ((bigEndianList 2 port ++ hint.toList ++ inner).drop
      (2 + torHintBytes)).take inner.length = inner := by
    rw [← List.drop_drop, List.append_assoc, List.drop_left' (length_bigEndianList 2 port),
      List.drop_left' hint.length_eq, List.take_length]
  rw [hhint, hinner]
  rfl

/-- A relay puts its layer around a response, whatever hint it carries. -/
theorem handleConnection_response (w : World) (h : OnlySession sessions hop)
    {hint data : List UInt8} (hhint : hint.length = torHintBytes) (hdata : data ≠ [])
    (hmax : data.length ≤ torMaxCellSize) (myPort : Nat)
    (hconnects : w.connects (responsePort myPort) = true) (nonce : Bytes gcmNonceLen) :
    ∃ enc, Layer P hop data enc ∧
      handleConnection P w sessions myPort nonce
          (torModeResponse :: (hint ++ bigEndianList 2 data.length ++ data))
        = .ok [(responsePort myPort,
          torModeResponse :: (hop.hint.toList ++ bigEndianList 2 enc.length ++ enc))] := by
  obtain ⟨enc, henc, hsend⟩ :=
    sendResponse_eq P w ⟨hop.hint, hop.key, true⟩ nonce data (responsePort myPort)
  rw [if_pos hconnects] at hsend
  refine ⟨enc.1, ⟨length_cryptoAesEncrypt P henc, fun outSize hout =>
    cryptoAesDecrypt_encrypt P henc hout⟩, ?_⟩
  have hpos := List.length_pos_iff.mpr hdata
  unfold handleConnection
  dsimp only
  rw [if_neg (by decide), if_pos rfl]
  unfold handleResponse
  rw [List.append_assoc, recvAll_append hhint]
  dsimp only
  rw [recvAll_append (length_bigEndianList 2 data.length)]
  dsimp only
  rw [valueList_two (hmax.trans_lt (by decide)), if_neg (by omega), malloc_eq rfl, ok_bind,
    recvAll_all]
  dsimp only
  rw [h.responseSession hint]
  exact hsend

end

/-! The gateway's part. -/

section
omit P
variable {payload : List UInt8}

theorem length_sgEchoPrefix : sgEchoPrefix.length = 9 := by decide

theorem sgReceive_request (h : payload.length ≤ torCellPayload) :
    sgReceive (torModeData :: bigEndianList 2 payload.length ++ payload) = some payload := by
  unfold sgReceive
  have hmode : recvAll 1 ([torModeData] ++ (bigEndianList 2 payload.length ++ payload))
      = some ([torModeData], bigEndianList 2 payload.length ++ payload) := recvAll_append rfl _
  rw [List.cons_append, ← List.singleton_append, hmode, Option.bind_eq_bind, Option.bind_some]
  dsimp only
  rw [if_pos rfl, recvAll_append (length_bigEndianList 2 payload.length), Option.bind_some]
  dsimp only
  rw [valueList_two (h.trans_lt (by decide)), if_neg (Nat.not_lt.mpr h), recvAll_all]
  rfl

/-- The text that is formatted into the response. -/
def sgEchoText (payload : List UInt8) : List UInt8 := sgEchoPrefix ++ payload.takeWhile (· ≠ 0)

/-- What the response buffer holds after it. -/
def sgResponse (payload : List UInt8) : List UInt8 :=
  filled ((sgEchoText payload).take (torCellPayload - 1) ++ [0]) torCellPayload

theorem length_sgResponse (payload : List UInt8) :
    (sgResponse payload).length = torCellPayload := by
  apply length_filled
  rw [List.length_append, List.length_take, List.length_singleton, torCellPayload]
  omega

/-- What the copy takes from the response buffer, the length of the text in front of it. -/
theorem sgEcho_copies (payload : List UInt8) :
    sgEcho payload
      = memcpy
          (filled (bigEndianList 2 (sgEchoText payload).length) (2 + (sgEchoText payload).length))
          2 (sgResponse payload) 0 (sgEchoText payload).length := by
  unfold sgEcho sgResponse
  rw [← sgEchoText]
  generalize sgEchoText payload = text
  dsimp only
  rw [← byteOf_two, malloc_eq (n := 2 + text.length) (by push_cast; ring), ok_bind,
    store_next (by simp) (by simp), ok_bind,
    store_next (by simp) (by simp; omega), ok_bind]
  rfl

/-- A text no longer than the response buffer is sent as it stands there. -/
theorem sgEcho_fits (h : (sgEchoText payload).length ≤ torCellPayload) :
    sgEcho payload = .ok (bigEndianList 2 (sgEchoText payload).length
      ++ (sgResponse payload).take (sgEchoText payload).length) := by
  have hresponse := length_sgResponse payload
  have hread : 0 + (sgEchoText payload).length ≤ (sgResponse payload).length := by omega
  have hlength := length_bigEndianList 2 (sgEchoText payload).length
  rw [sgEcho_copies, memcpy_next (by rw [hlength]; rfl) (by simp) rfl hread (by omega),
    List.drop_zero, filled_all]
  rw [List.length_append, hlength, List.length_take]
  omega

/-- A payload without NUL bytes that leaves room for the prefix is echoed whole. -/
theorem sgEcho_eq (hnul : 0 ∉ payload) (h : (sgEchoPrefix ++ payload).length < torCellPayload) :
    sgEcho payload = .ok (bigEndianList 2 (sgEchoPrefix ++ payload).length
      ++ (sgEchoPrefix ++ payload)) := by
  have htext : sgEchoText payload = sgEchoPrefix ++ payload := by
    unfold sgEchoText
    rw [List.takeWhile_eq_self_iff.mpr]
    exact fun b hb => decide_eq_true fun heq => hnul (heq ▸ hb)
  have hroom : (sgEchoText payload).take (torCellPayload - 1) = sgEchoText payload :=
    List.take_of_length_le (by rw [htext]; exact Nat.le_sub_one_of_lt h)
  have htake : (sgResponse payload).take (sgEchoText payload).length = sgEchoText payload := by
    unfold sgResponse filled
    rw [hroom, List.append_assoc, List.take_left]
  rw [sgEcho_fits (by rw [htext]; exact h.le), htake, htext]

theorem gateway_answers (hnul : 0 ∉ payload)
    (h : (sgEchoPrefix ++ payload).length < torCellPayload) :
    circuitWorld.gateway (torModeData :: bigEndianList 2 payload.length ++ payload)
      = bigEndianList 2 (sgEchoPrefix ++ payload).length ++ (sgEchoPrefix ++ payload) := by
  have hle : payload.length ≤ torCellPayload := by
    rw [List.length_append] at h
    omega
  unfold circuitWorld handleSgConn
  dsimp only
  rw [sgReceive_request hle]
  dsimp only
  rw [sgEcho_eq hnul h]

end

/-- The exit node gives the payload to the gateway and sends the echo back in a first layer. -/
theorem handleConnection_exit {sessions : List TorSession} {hop : Hop}
    {payload enc : List UInt8} (h : OnlySession sessions hop)
    (hlayer : Layer P hop (bigEndianList 2 torPortSg ++ payload) enc)
    (hmax : enc.length ≤ torMaxCellSize) (hnul : 0 ∉ payload)
    (hroom : (sgEchoPrefix ++ payload).length < torCellPayload)
    (myPort : Nat) (nonce : Bytes gcmNonceLen) :
    ∃ enc', Layer P hop (sgEchoPrefix ++ payload) enc' ∧
      handleConnection P circuitWorld sessions myPort nonce
          (torModeData :: (hop.hint.toList ++ bigEndianList 2 enc.length ++ enc))
        = .ok [(torPortSg, torModeData :: bigEndianList 2 payload.length ++ payload),
          (torPortTn2,
            torModeResponse :: (hop.hint.toList ++ bigEndianList 2 enc'.length ++ enc'))] := by
  have hlength : (bigEndianList 2 torPortSg ++ payload).length = 2 + payload.length := by
    rw [List.length_append, length_bigEndianList]
  have hread := readCell_sent h hlayer (by omega) hmax
  have hrequest : buildGatewayRequest (bigEndianList 2 torPortSg ++ payload) _ = _ :=
    buildGatewayRequest_eq (by omega)
  rw [hlength, Nat.add_sub_cancel_left, List.drop_left' (length_bigEndianList 2 torPortSg)]
    at hrequest
  obtain ⟨enc', henc', hsend⟩ := sendResponse_eq P circuitWorld ⟨hop.hint, hop.key, true⟩ nonce
    (sgEchoPrefix ++ payload) torPortTn2
  refine ⟨enc'.1, ⟨length_cryptoAesEncrypt P henc', fun outSize hout =>
    cryptoAesDecrypt_encrypt P henc' hout⟩, ?_⟩
  unfold handleConnection handleData
  dsimp only
  rw [if_pos rfl, hread, ok_bind]
  dsimp only
  rw [nextPortOf_append (by decide), if_pos (.inl rfl)]
  unfold exitBranch
  have hlisten : circuitWorld.connects torPortSg = true := rfl
  have hecho : (sgEchoPrefix ++ payload).length ≠ 0 := by
    rw [List.length_append, length_sgEchoPrefix]
    omega
  rw [if_pos hlisten, hlength, hrequest, ok_bind, gateway_answers hnul hroom,
    recvAll_append (length_bigEndianList 2 _)]
  dsimp only
  rw [valueList_two (hroom.trans (by decide)), if_neg (by omega), malloc_eq rfl, ok_bind,
    recvAll_all]
  dsimp only
  rw [hsend]
  rfl

theorem Layer.length_relay {hop : Hop} {port : Nat} {hint : Bytes torHintBytes}
    {inner enc : List UInt8} (h : Layer P hop (bigEndianList 2 port ++ hint.toList ++ inner) enc) :
    enc.length = inner.length + torCellOverhead := by
  rw [h.length, List.length_append, List.length_append, length_bigEndianList, hint.length_eq]
  exact Nat.add_right_comm (2 + torHintBytes) inner.length gcmOverhead |>.trans (Nat.add_comm _ _)

section
variable {hops : Fin torMaxHops → Hop}

/-- The cell of the client, and what is in it layer by layer. -/
theorem buildForwardCell_eq {payload : List UInt8} (hmax : payload.length ≤ torMaxPayload)
    (nonce : Fin torMaxHops → Bytes gcmNonceLen) :
    ∃ l3 l2 l1, Layer P (hops 2) (bigEndianList 2 torPortSg ++ payload) l3 ∧
      Layer P (hops 1) (bigEndianList 2 torPortTn3 ++ (hops 2).hint.toList ++ l3) l2 ∧
      Layer P (hops 0) (bigEndianList 2 torPortTn2 ++ (hops 1).hint.toList ++ l2) l1 ∧
      l3.length ≤ torMaxCellSize ∧ l2.length ≤ torMaxCellSize ∧ l1.length ≤ torMaxCellSize ∧
      buildForwardCell P hops nonce payload (torMaxCellSize + 256)
        = some ((hops 0).hint.toList ++ bigEndianList 2 l1.length ++ l1) := by
  obtain ⟨l3, hl3, layer3⟩ :=
    sealLayer_eq P (hops 2) (nonce 2) (bigEndianList 2 torPortSg ++ payload)
  obtain ⟨l2, hl2, layer2⟩ :=
    sealLayer_eq P (hops 1) (nonce 1) (bigEndianList 2 torPortTn3 ++ (hops 2).hint.toList ++ l3)
  obtain ⟨l1, hl1, layer1⟩ :=
    sealLayer_eq P (hops 0) (nonce 0) (bigEndianList 2 torPortTn2 ++ (hops 1).hint.toList ++ l2)
  have hpayload : payload.length ≤ 886 := hmax
  have hlen3 : l3.length = 2 + payload.length + 28 := by
    rw [layer3.length, List.length_append, length_bigEndianList]
  have hlen2 : l2.length = l3.length + 46 := layer2.length_relay
  have hlen1 : l1.length = l2.length + 46 := layer1.length_relay
  have hfits : ∀ {n}, n ≤ 1162 → n ≤ torMaxCellSize := fun h => h
  refine ⟨l3, l2, l1, layer3, layer2, layer1, hfits (by omega), hfits (by omega),
    hfits (by omega), ?_⟩
  have hout : ¬ 1162 + 256 < 16 + 2 + l1.length := by omega
  unfold buildForwardCell
  simp only [hl3, hl2, hl1, Option.bind_eq_bind, Option.bind_some]
  exact if_neg hout

/-- The layers come off in the order of the hops, the last one put on first. -/
theorem responseListener_eq {text r3 r2 r1 : List UInt8} (echo3 : Layer P (hops 2) text r3)
    (echo2 : Layer P (hops 1) r3 r2) (echo1 : Layer P (hops 0) r2 r1)
    (hroom : text.length ≤ torCellPayload) :
    responseListener P hops
        (torModeResponse :: ((hops 0).hint.toList ++ bigEndianList 2 r1.length ++ r1))
      = some text := by
  have hlength : r1.length < 65536 := by
    have htext : text.length ≤ 1024 := hroom
    have h3 : r3.length = text.length + 28 := echo3.length
    have h2 : r2.length = r3.length + 28 := echo2.length
    have h1 : r1.length = r2.length + 28 := echo1.length
    omega
  have hlayers : peelLayers P (List.ofFn hops) r1 = some text := by
    change peelLayers P [hops 0, hops 1, hops 2] r1 = _
    rw [peelLayers_cons P echo1, peelLayers_cons P echo2, peelLayers_cons P echo3]
    rfl
  have hmode : ∀ rest, recvAll 1 ([torModeResponse] ++ rest) = some ([torModeResponse], rest) :=
    recvAll_append rfl
  unfold responseListener
  rw [← List.singleton_append, hmode, Option.bind_eq_bind, Option.bind_some]
  dsimp only
  rw [List.append_assoc, recvAll_append (hops 0).hint.length_eq, Option.bind_some]
  dsimp only
  rw [recvAll_append (length_bigEndianList 2 r1.length), Option.bind_some]
  dsimp only
  rw [valueList_two hlength, recvAll_all, Option.bind_some]
  unfold peelResponse
  rw [hlayers, Option.bind_eq_bind, Option.bind_some, if_neg (Nat.not_lt.mpr hroom)]

end

/-- A payload gets through the circuit whole, and its echo back. -/
theorem onion_round_trip {sessions : Fin torMaxHops → List TorSession}
    {hops : Fin torMaxHops → Hop} (hsessions : ∀ i, OnlySession (sessions i) (hops i))
    {payload : List UInt8} (hmax : payload.length ≤ torMaxPayload)
    (hnul : 0 ∉ payload) (nonce out back : Fin torMaxHops → Bytes gcmNonceLen) :
    ∃ wire cell2 cell3 request resp2 resp1 resp0,
      buildForwardCell P hops nonce payload (torMaxCellSize + 256) = some wire ∧
      handleConnection P circuitWorld (sessions 0) torPortTn1 (out 0) (torModeData :: wire)
        = .ok [(torPortTn2, cell2)] ∧
      handleConnection P circuitWorld (sessions 1) torPortTn2 (out 1) cell2
        = .ok [(torPortTn3, cell3)] ∧
      handleConnection P circuitWorld (sessions 2) torPortTn3 (out 2) cell3
        = .ok [(torPortSg, request), (torPortTn2, resp2)] ∧
      sgReceive request = some payload ∧
      handleConnection P circuitWorld (sessions 1) torPortTn2 (back 1) resp2
        = .ok [(torPortTn1, resp1)] ∧
      handleConnection P circuitWorld (sessions 0) torPortTn1 (back 0) resp1
        = .ok [(torPortClient, resp0)] ∧
      responseListener P hops resp0 = some (sgEchoPrefix ++ payload) := by
  have hpayload : payload.length ≤ 886 := hmax
  have hecho : (sgEchoPrefix ++ payload).length = 9 + payload.length := by
    rw [List.length_append, length_sgEchoPrefix]
  have hroom : (sgEchoPrefix ++ payload).length < torCellPayload :=
    lt_of_le_of_lt (show _ ≤ 895 by omega) (by decide)
  have hfits : ∀ {n}, n ≤ 1162 → n ≤ torMaxCellSize := fun h => h
  obtain ⟨l3, l2, l1, layer3, layer2, layer1, hl3, hl2, hl1, hwire⟩ :=
    buildForwardCell_eq P hmax nonce
  have hfirst := handleConnection_forward circuitWorld (hsessions 0) layer1 hl1 (by decide)
    (by decide) rfl torPortTn1 (out 0)
  have hsecond := handleConnection_forward circuitWorld (hsessions 1) layer2 hl2 (by decide)
    (by decide) rfl torPortTn2 (out 1)
  -- The echo is wrapped in the order in which the relays are passed on the way back.
  obtain ⟨r3, echo3, hexit⟩ :=
    handleConnection_exit P (hsessions 2) layer3 hl3 hnul hroom torPortTn3 (out 2)
  have hr3 : r3.length = (sgEchoPrefix ++ payload).length + 28 := echo3.length
  obtain ⟨r2, echo2, hback2⟩ := handleConnection_response (P := P) circuitWorld (hsessions 1)
    (hops 2).hint.length_eq (List.length_pos_iff.mp (show 0 < r3.length by omega))
    (hfits (by omega)) torPortTn2 rfl (back 1)
  have hr2 : r2.length = r3.length + 28 := echo2.length
  obtain ⟨r1, echo1, hback1⟩ := handleConnection_response (P := P) circuitWorld (hsessions 0)
    (hops 1).hint.length_eq (List.length_pos_iff.mp (show 0 < r2.length by omega))
    (hfits (by omega)) torPortTn1 rfl (back 0)
  exact ⟨_, _, _, _, _, _, _, hwire, hfirst, hsecond, hexit,
    sgReceive_request (hpayload.trans (by decide)), hback2, hback1,
    responseListener_eq P echo3 echo2 echo1 hroom.le⟩

/-- Hops with keys and hints of their own. -/
def sampleHops (i : Fin torMaxHops) : Hop :=
  ⟨Bytes.fit 32 [UInt8.ofNat i], Bytes.fit 16 [UInt8.ofNat i]⟩

def sampleSessions (i : Fin torMaxHops) : List TorSession :=
  [⟨(sampleHops i).hint, (sampleHops i).key, true⟩]

def sampleGcmNonce (first : Nat) (i : Fin torMaxHops) : Bytes gcmNonceLen :=
  Bytes.fit _ [UInt8.ofNat (first + i)]

/-- Two letters, there and back. -/
theorem onion_round_trip_hi :
    ∃ wire cell2 cell3 request resp2 resp1 resp0,
      buildForwardCell .sample sampleHops (sampleGcmNonce 1) [72, 105] (torMaxCellSize + 256)
        = some wire ∧
      handleConnection .sample circuitWorld (sampleSessions 0) torPortTn1 (sampleGcmNonce 4 0)
        (torModeData :: wire) = .ok [(torPortTn2, cell2)] ∧
      handleConnection .sample circuitWorld (sampleSessions 1) torPortTn2 (sampleGcmNonce 4 1) cell2
        = .ok [(torPortTn3, cell3)] ∧
      handleConnection .sample circuitWorld (sampleSessions 2) torPortTn3 (sampleGcmNonce 4 2) cell3
        = .ok [(torPortSg, request), (torPortTn2, resp2)] ∧
      sgReceive request = some [72, 105] ∧
      handleConnection .sample circuitWorld (sampleSessions 1) torPortTn2 (sampleGcmNonce 7 1) resp2
        = .ok [(torPortTn1, resp1)] ∧
      handleConnection .sample circuitWorld (sampleSessions 0) torPortTn1 (sampleGcmNonce 7 0) resp1
        = .ok [(torPortClient, resp0)] ∧
      responseListener .sample sampleHops resp0 = some (labelBytes "SG-ECHO: Hi") := by
  have hsessions : ∀ i, OnlySession (sampleSessions i) (sampleHops i) := fun _ =>
    ⟨[], [], rfl, fun _ h => absurd h List.not_mem_nil⟩
  exact onion_round_trip .sample hsessions (by decide) (by decide) (sampleGcmNonce 1)
    (sampleGcmNonce 4) (sampleGcmNonce 7)

end AnonSecNet.Tor
