import AnonSecNet.Foundation.Checked
import AnonSecNet.Gateway.HintFilter
import AnonSecNet.Gateway.Relay

/-! How `find_a_session` and `handle_connection` of `service_gateway.c` decode a packet, in their
buffers and with every access checked. A buffer holds whatever it held before behind the bytes
that were written. -/
namespace AnonSecNet.Gateway
open Octets Cache Checked
variable (P : Primitives)

/-- Two bytes as a length. -/
def loadLen (array : List UInt8) (off : Nat) : Except Overrun Nat := do
  let hi ← load array off
  let lo ← load array (off + 1)
  return valueList [hi, lo]

/-- `payload_out`, `*payload_len` and `*flags`. -/
structure Unwrapped where
  payload : List UInt8
  len : Nat
  flags : UInt8

/-- `packet_sphinx_unwrap` on its local `plain` and the caller's `payload_out`. -/
def unwrapBuffer (pkt : List UInt8) (e2eKey : AesKey) (plain payloadOut : List UInt8) :
    Except Overrun (Option Unwrapped) := do
  let encLen ← loadLen pkt headerSize
  if encLen < gcmOverhead + innerHdrBytes ∨ payloadSectionSize - 2 < encLen then return none
  let ct ← copy pkt (headerSize + 2) encLen encLen
  match cryptoAesDecrypt P e2eKey ct plain.length with
  | none => return none
  | some decrypted =>
    let plain ← memcpy plain decrypted 0 decrypted.length
    if decrypted.length < innerHdrBytes then return none
    let flags ← load plain 0
    let payloadLen ← loadLen plain 1
    if decrypted.length - innerHdrBytes < payloadLen then return none
    if maxInnerPayload < payloadLen then return none
    let payloadOut ← memcpy payloadOut plain innerHdrBytes payloadLen
    return some ⟨payloadOut, payloadLen, flags⟩

/-- `ptype` of the payload in `tmp`. -/
def packetTypeBuffer (tmp : List UInt8) (tlen : Nat) : Except Overrun (Option UInt8) := do
  let first ← load tmp 0
  if first = typeSetup then return some typeSetup
  if first = 0x04 ∧ returnHdrInPayload < tlen then
    let type ← load tmp returnHdrInPayload
    return if type ∈ [typeGet, typePut, typeHandshakeInit, typeHandshakePoll, typeHeartbeat,
      typeHandshakeRespond] then some type else none
  return none

/-- The checks on the payload in `tmp`; `confirmed` tells whether the slot still holds the
candidate. -/
def acceptsBuffer (t : Table) (i : Fin maxSessions) (confirmed : Bool) (tmp : List UInt8)
    (tlen : Nat) (flags : UInt8) : Except Overrun Bool := do
  if isDummy flags then return decide (returnHeaderSize ≤ tlen) && confirmed
  if tlen < 1 then return false
  match ← packetTypeBuffer tmp tlen with
  | none => return false
  | some type =>
    if confirmed = false then return false
    if type = typeSetup then
      if tlen < setupTagOff + macBytes then return false
      let tag ← copy tmp setupTagOff macBytes macBytes
      return (findVerifiedB P (bindings t) (t i).e2eKey (Bytes.fit macBytes tag) i).isSome
    let ip ← load tmp ecPubkeyLen
    if ip ≠ 127 then return false
    if (t i).setupDone = false then return false
    let pktPort ← loadLen tmp (ecPubkeyLen + 4)
    return decide (UInt16.ofNat pktPort = addrPort (t i).mncAddr)

/-- One candidate of the search; a match is copied to `payload_out`. -/
def tryBuffer (t : Table) (pkt : List UInt8) (c : Fin maxSessions × AesKey)
    (plain tmp payloadOut : List UInt8) : Except Overrun (Option Unwrapped) := do
  match ← unwrapBuffer P pkt c.2 plain tmp with
  | none => return none
  | some u =>
    let confirmed := decide ((t c.1).inUse = true ∧ (t c.1).e2eKey = c.2)
    if ← acceptsBuffer P t c.1 confirmed u.payload u.len u.flags then
      let payloadOut ← memcpy payloadOut u.payload 0 u.len
      return some { u with payload := payloadOut }
    return none

/-- The search over the snapshot; `plain` and `tmp` are what the two locals hold at each
candidate, `live` is the table when it is confirmed. -/
def searchBuffer (live : Fin maxSessions → Table) (pkt : List UInt8)
    (plain tmp : Fin maxSessions → List UInt8) (payloadOut : List UInt8) :
    List (Fin maxSessions × AesKey) → Except Overrun (Option (Fin maxSessions × Unwrapped))
  | [] => .ok none
  | c :: cs => do
    match ← tryBuffer P (live c.1) pkt c (plain c.1) (tmp c.1) payloadOut with
    | some u => return some (c.1, u)
    | none => searchBuffer live pkt plain tmp payloadOut cs

/-! What `handle_connection` makes of the payload. -/

inductive Decoded where
  | drop
  /-- A cover packet sends a response of the mailbox, or cover with its spare header. -/
  | cover (a b : Fin maxSessions) (spare : Option ReturnHeader)
  | setup (a : Fin maxSessions) (stored : SgSession)
  /-- The header and address that are stored, and the request that goes to the cache server. -/
  | request (a b : Fin maxSessions) (reqHdr : ReturnHeader) (mncAddr : Addr)
      (forwarded : Option RawRequest)

/-- The fields of a SETUP; nothing reads `mnc_pubkey`. -/
def setupBuffer (sess : SgSession) (payload : List UInt8) : Except Overrun SgSession := do
  let blind0 ← copy payload 1 aesKeyLen aesKeyLen
  let blind1 ← copy payload (1 + aesKeyLen) aesKeyLen aesKeyLen
  let blind2 ← copy payload (1 + 2 * aesKeyLen) aesKeyLen aesKeyLen
  let tag ← copy payload setupTagOff macBytes macBytes
  let _ ← copy payload (setupTagOff + macBytes) ecPubkeyLen ecPubkeyLen
  let addr ← copy payload (setupTagOff + macBytes + ecPubkeyLen) addrBytes addrBytes
  let hdr ← copy payload (setupTagOff + macBytes + ecPubkeyLen + addrBytes) returnHeaderSize
    returnHeaderSize
  return { sess with
    recvBlind := fun i => Bytes.fit aesKeyLen
      (if i.val = 0 then blind0 else if i.val = 1 then blind1 else blind2)
    bindingTag := Bytes.fit macBytes tag
    mncAddr := Bytes.fit addrBytes addr
    returnHdr := Bytes.fit returnHeaderSize hdr }

/-- `[clen(2)][data]` at `off`. -/
def dataBuffer (payload : List UInt8) (plen off : Nat) : Except Overrun (Option (List UInt8)) := do
  if plen < off + 2 then return some []
  let clen ← loadLen payload off
  if plen < off + 2 + clen then return none
  let data ← copy payload (off + 2) clen clen
  return some data

/-- The key at `off` and the data behind it. `klen` is read before `off` is compared with the
length of the payload. -/
def keyedBuffer (type : Option RequestType) (reqNonce : Bytes slotNonceBytes)
    (payload : List UInt8) (plen off : Nat) : Except Overrun (Option RawRequest) := do
  let klen ← load payload off
  if klen = 0 ∨ maxKeyLen < klen.toNat ∨ plen < off + 1 + klen.toNat then return none
  let key ← copy payload (off + 1) klen.toNat (maxKeyLen + 1)
  match type with
  | none => return none
  | some type =>
    let data ← if carriesData type then dataBuffer payload plen (off + 1 + klen.toNat)
      else pure (some [])
    return data.map fun data => ⟨type, reqNonce, key, data⟩

/-- The request behind the routing fields. -/
def requestBuffer (payload : List UInt8) (plen : Nat) : Except Overrun (Option RawRequest) := do
  let code ← load payload returnHdrInPayload
  let off := returnHdrInPayload + 1
  if code = typePut ∨ code = typeHeartbeat ∨ code = typeHandshakeRespond then
    if plen < off + slotNonceBytes then return none
    let nonce ← copy payload off slotNonceBytes slotNonceBytes
    keyedBuffer (RequestType.ofCode code) (Bytes.fit slotNonceBytes nonce) payload plen
      (off + slotNonceBytes)
  else keyedBuffer (RequestType.ofCode code) (Bytes.zero _) payload plen off

/-- A packet that is neither cover nor a SETUP. -/
def relayBuffer (t : Table) (a : Fin maxSessions) (payload : List UInt8) (plen : Nat) :
    Except Overrun Decoded := do
  if (t a).setupDone = false then return .drop
  match partnerOf P (bindings t) a with
  | none => return .drop
  | some b =>
    if plen < returnHdrInPayload + 2 then return .drop
    let _ ← copy payload 0 ecPubkeyLen ecPubkeyLen
    let addr ← copy payload ecPubkeyLen addrBytes addrBytes
    let reqHdr ← copy payload (ecPubkeyLen + addrBytes) returnHeaderSize returnHeaderSize
    let forwarded ← requestBuffer payload plen
    return .request a b (Bytes.fit returnHeaderSize reqHdr) (Bytes.fit addrBytes addr) forwarded

def parseBuffer (t : Table) (a : Fin maxSessions) (payload : List UInt8) (plen : Nat)
    (flags : UInt8) : Except Overrun Decoded := do
  if isDummy flags then
    if (t a).setupDone = false then return .drop
    match partnerOf P (bindings t) a with
    | none => return .drop
    | some b =>
      if (t a).pending.isEmpty = false then return .cover a b none
      if plen < returnHeaderSize then return .drop
      let spare ← copy payload 0 returnHeaderSize returnHeaderSize
      return .cover a b (some (Bytes.fit returnHeaderSize spare))
  else
    let first ← load payload 0
    if first = typeSetup then
      if plen < setupMinLen then return .drop
      let stored ← setupBuffer (t a) payload
      return .setup a stored
    relayBuffer P t a payload plen

/-- `MODE_DATA` behind the receipt: `snapshot` is the table of the candidates, `now` the one when
the payload is handled. -/
def decodeBuffer (snapshot : Table) (live : Fin maxSessions → Table) (now : Table)
    (pkt : WirePacket) (plain : Fin maxSessions → Bytes payloadSectionSize)
    (tmp : Fin maxSessions → Bytes maxInnerPayload) (payload : Bytes maxInnerPayload) :
    Except Overrun Decoded := do
  let hint ← copy pkt.toList (wirePacketSize - sgHintBytes) sgHintBytes sgHintBytes
  let candidates := (List.finRange maxSessions).filterMap fun i =>
    if (snapshot i).inUse = true ∧ (snapshot i).role = sessionRoleA ∧
        (snapshot i).sgHint = Bytes.fit sgHintBytes hint then
      some (i, (snapshot i).e2eKey)
    else none
  match ← searchBuffer P live pkt.toList (fun i => (plain i).toList) (fun i => (tmp i).toList)
      payload.toList candidates with
  | none => return .drop
  | some (a, u) => parseBuffer P now a u.payload u.len u.flags

/-! The same on the bytes of the payload alone. -/

def relayPayload (t : Table) (a : Fin maxSessions) (payload : List UInt8) : Decoded :=
  if (t a).setupDone = false then .drop
  else
    match partnerOf P (bindings t) a with
    | none => .drop
    | some b =>
      if payload.length < returnHdrInPayload + 2 then .drop
      else
        .request a b (Bytes.fit returnHeaderSize (payload.drop (ecPubkeyLen + addrBytes)))
          (Bytes.fit addrBytes (payload.drop ecPubkeyLen)) (parseRaw payload)

def decodePayload (t : Table) (a : Fin maxSessions) (payload : List UInt8) (flags : UInt8) :
    Decoded :=
  if isDummy flags then
    if (t a).setupDone = false then .drop
    else
      match partnerOf P (bindings t) a with
      | none => .drop
      | some b =>
        if (t a).pending.isEmpty = false then .cover a b none
        else if payload.length < returnHeaderSize then .drop
        else .cover a b (some (Bytes.fit returnHeaderSize payload))
  else if payload.head? = some typeSetup then
    if payload.length < setupMinLen then .drop else .setup a (storeSetup (t a) payload)
  else relayPayload P t a payload

def decode (snapshot : Table) (live : Fin maxSessions → Table) (now : Table) (pkt : WirePacket) :
    Decoded :=
  match search P live pkt (candidates snapshot pkt) with
  | none => .drop
  | some (a, payload, flags) => decodePayload P now a payload flags

/-! The accesses in front of the end of the payload. -/

section
variable {m rest : List UInt8} {off len : Nat}

theorem loadLen_append (h : off + 2 ≤ m.length) :
    loadLen (m ++ rest) off = .ok (valueList ((m.drop off).take 2)) := by
  unfold loadLen
  rw [load_append (by omega), load_append (by omega), load_eq (by omega), load_eq (by omega),
    List.drop_eq_getElem_cons (by omega), List.drop_eq_getElem_cons (by omega)]
  rfl

theorem copy_front {cap : Nat} (h : off + len ≤ m.length) (hcap : len ≤ cap) :
    copy (m ++ rest) off len cap = .ok ((m.drop off).take len) := by
  rw [copy_append h, copy_eq h hcap]

theorem fit_take {n : Nat} (h : off + n ≤ m.length) :
    Bytes.fit n ((m.drop off).take n) = Bytes.fit n (m.drop off) := by
  have hroom : n ≤ (m.drop off).length := by
    rw [List.length_drop]
    omega
  ext1
  rw [Bytes.toList_fit_of_le (by rw [List.length_take]; omega), Bytes.toList_fit_of_le hroom,
    List.take_take, Nat.min_self]

theorem dataBuffer_eq (hoff : off ≤ m.length) :
    dataBuffer (m ++ rest) m.length off = .ok (parseData (m.drop off)) := by
  unfold dataBuffer
  have hlen := List.length_drop (l := m) (i := off)
  by_cases hshort : m.length < off + 2
  · rw [if_pos hshort]
    match hdrop : m.drop off with
    | [] => rfl
    | [_] => rfl
    | _ :: _ :: _ =>
      rw [hdrop] at hlen
      simp only [List.length_cons] at hlen
      omega
  · rw [if_neg hshort]
    match hdrop : m.drop off with
    | [] | [_] =>
      rw [hdrop] at hlen
      simp only [List.length_cons, List.length_nil] at hlen
      omega
    | hi :: lo :: tail =>
      rw [hdrop] at hlen
      simp only [List.length_cons] at hlen
      have htail : m.drop (off + 2) = tail := by
        rw [← List.drop_drop, hdrop]
        rfl
      have hclen : (m.drop off).take 2 = [hi, lo] := by
        rw [hdrop]
        rfl
      rw [loadLen_append (by omega), hclen]
      simp only [bind, Except.bind, pure, Except.pure]
      unfold parseData
      dsimp only
      by_cases hover : tail.length < valueList [hi, lo]
      · rw [if_pos (by omega), if_pos hover]
      · have hfits : ¬ m.length < off + 2 + valueList [hi, lo] := by omega
        rw [if_neg hfits, if_neg hover, copy_front (by omega) (Nat.le_refl _), htail]

/-- At the end of the payload `klen` is a byte behind it, and the request is dropped whatever
that byte is. -/
theorem keyedBuffer_eq (type : Option RequestType) (reqNonce : Bytes slotNonceBytes)
    (hoff : off ≤ m.length) (hbuffer : off < (m ++ rest).length) :
    keyedBuffer type reqNonce (m ++ rest) m.length off =
      .ok (type.bind fun type => parseKeyed type reqNonce (m.drop off)) := by
  unfold keyedBuffer
  match hdrop : m.drop off with
  | [] =>
    have hend := List.drop_eq_nil_iff.mp hdrop
    rw [load_eq hbuffer]
    simp only [bind, Except.bind, pure, Except.pure]
    rw [if_pos (.inr (.inr (by omega)))]
    cases type with
    | none => rfl
    | some type => rfl
  | klen :: tail =>
    have hlen := List.length_drop (l := m) (i := off)
    rw [hdrop, List.length_cons] at hlen
    have htail : m.drop (off + 1) = tail := by
      rw [← List.drop_drop, hdrop]
      rfl
    rw [load_append (by omega), load_drop hdrop]
    simp only [bind, Except.bind, pure, Except.pure]
    have hbadIff : (klen = 0 ∨ maxKeyLen < klen.toNat ∨ m.length < off + 1 + klen.toNat) ↔
        (klen = 0 ∨ maxKeyLen < klen.toNat ∨ tail.length < klen.toNat) :=
      or_congr Iff.rfl (or_congr Iff.rfl (by omega))
    by_cases hbad : klen = 0 ∨ maxKeyLen < klen.toNat ∨ tail.length < klen.toNat
    · rw [if_pos (hbadIff.mpr hbad)]
      cases type with
      | none => rfl
      | some type =>
        rw [Option.bind_some, parseKeyed, if_pos hbad]
    · have hgood := hbad
      simp only [not_or, Nat.not_lt] at hgood
      rw [if_neg (fun h => hbad (hbadIff.mp h)), copy_front (by omega) (by omega), htail]
      cases type with
      | none => rfl
      | some type =>
        rw [Option.bind_some, parseKeyed, if_neg hbad]
        dsimp only
        by_cases hcarries : carriesData type = true
        · rw [if_pos hcarries, if_pos hcarries, dataBuffer_eq (by omega), ← List.drop_drop, htail]
        · rw [if_neg hcarries, if_neg hcarries]

theorem hasNonce_iff {code : UInt8} {type : RequestType} (h : RequestType.ofCode code = some type) :
    (code = typePut ∨ code = typeHeartbeat ∨ code = typeHandshakeRespond) ↔
      hasNonce type = true := by
  have hcode : type.code = code := by simpa using List.find?_some h
  subst hcode
  cases type <;> decide

theorem requestBuffer_eq (hmin : returnHdrInPayload + 2 ≤ m.length)
    (hbuffer : (m ++ rest).length = maxInnerPayload) :
    requestBuffer (m ++ rest) m.length = .ok (parseRaw m) := by
  have hlen := List.length_drop (l := m) (i := returnHdrInPayload)
  unfold requestBuffer parseRaw
  rw [if_neg (Nat.not_lt.mpr hmin)]
  match hdrop : m.drop returnHdrInPayload with
  | [] =>
    have hend := List.drop_eq_nil_iff.mp hdrop
    omega
  | code :: tail =>
    rw [hdrop, List.length_cons] at hlen
    have htail : m.drop (returnHdrInPayload + 1) = tail := by
      rw [← List.drop_drop, hdrop]
      rfl
    rw [load_append (by omega), load_drop hdrop]
    simp only [bind, Except.bind, pure, Except.pure]
    by_cases hnonce : code = typePut ∨ code = typeHeartbeat ∨ code = typeHandshakeRespond
    · rw [if_pos hnonce]
      have hparse (type : RequestType) (h : RequestType.ofCode code = some type) :
          parseTyped type tail = if tail.length < slotNonceBytes then none
            else parseKeyed type (Bytes.fit slotNonceBytes tail) (tail.drop slotNonceBytes) := by
        unfold parseTyped
        rw [if_pos ((hasNonce_iff h).mp hnonce)]
      by_cases hshort : tail.length < slotNonceBytes
      · rw [if_pos (by omega)]
        cases htype : RequestType.ofCode code with
        | none => rfl
        | some type =>
          rw [Option.bind_some, hparse type htype, if_pos hshort]
      · have hroom : returnHdrInPayload + 1 + slotNonceBytes ≤ m.length := by omega
        rw [if_neg (Nat.not_lt.mpr hroom), copy_front hroom (Nat.le_refl _)]
        dsimp only
        have hkeyed : m.drop (returnHdrInPayload + 1 + slotNonceBytes)
            = tail.drop slotNonceBytes := by
          rw [← List.drop_drop, htail]
        rw [fit_take hroom, keyedBuffer_eq _ _ hroom (by rw [hbuffer]; decide), hkeyed, htail]
        cases htype : RequestType.ofCode code with
        | none => rfl
        | some type =>
          rw [Option.bind_some, Option.bind_some, hparse type htype, if_neg hshort]
    · rw [if_neg hnonce, keyedBuffer_eq _ _ (by omega) (by rw [hbuffer]; decide), htail]
      cases htype : RequestType.ofCode code with
      | none => rfl
      | some type =>
        rw [Option.bind_some, Option.bind_some, parseTyped,
          if_neg (fun h => hnonce ((hasNonce_iff htype).mpr h))]

theorem setupBuffer_eq (sess : SgSession) (hmin : setupMinLen ≤ m.length) :
    setupBuffer sess (m ++ rest) = .ok (storeSetup sess m) := by
  have hroom {n : Nat} (hn : n ≤ setupMinLen) : n ≤ m.length := hn.trans hmin
  unfold setupBuffer
  rw [copy_front (hroom (by decide)) (Nat.le_refl _), copy_front (hroom (by decide)) (Nat.le_refl _),
    copy_front (hroom (by decide)) (Nat.le_refl _), copy_front (hroom (by decide)) (Nat.le_refl _),
    copy_front (hroom (by decide)) (Nat.le_refl _), copy_front (hroom (by decide)) (Nat.le_refl _),
    copy_front (hroom (by decide)) (Nat.le_refl _)]
  simp only [bind, Except.bind, pure, Except.pure, storeSetup, setupTag]
  rw [fit_take (hroom (by decide)), fit_take (hroom (by decide)), fit_take (hroom (by decide))]
  congr 2
  funext i
  rcases hop_cases i with rfl | rfl | rfl
  · exact fit_take (hroom (by decide))
  · exact fit_take (hroom (by decide))
  · exact fit_take (hroom (by decide))

theorem relayBuffer_eq (t : Table) (a : Fin maxSessions)
    (hbuffer : (m ++ rest).length = maxInnerPayload) :
    relayBuffer P t a (m ++ rest) m.length = .ok (relayPayload P t a m) := by
  unfold relayBuffer relayPayload
  by_cases hdone : (t a).setupDone = false
  · rw [if_pos hdone, if_pos hdone]
    rfl
  · rw [if_neg hdone, if_neg hdone]
    cases partnerOf P (bindings t) a with
    | none => rfl
    | some b =>
      dsimp only
      by_cases hshort : m.length < returnHdrInPayload + 2
      · rw [if_pos hshort, if_pos hshort]
        rfl
      · have hroom {n : Nat} (hn : n ≤ returnHdrInPayload + 2) : n ≤ m.length :=
          hn.trans (Nat.not_lt.mp hshort)
        rw [if_neg hshort, if_neg hshort, copy_front (hroom (by decide)) (Nat.le_refl _),
          copy_front (hroom (by decide)) (Nat.le_refl _),
          copy_front (hroom (by decide)) (Nat.le_refl _),
          requestBuffer_eq (Nat.not_lt.mp hshort) hbuffer]
        simp only [bind, Except.bind, pure, Except.pure]
        rw [fit_take (hroom (by decide)), fit_take (hroom (by decide))]

theorem relayPayload_nil (t : Table) (a : Fin maxSessions) : relayPayload P t a [] = .drop := by
  unfold relayPayload
  split
  · rfl
  · split
    · rfl
    · exact if_pos (by decide)

theorem parseBuffer_eq (t : Table) (a : Fin maxSessions) (flags : UInt8)
    (hbuffer : (m ++ rest).length = maxInnerPayload) :
    parseBuffer P t a (m ++ rest) m.length flags = .ok (decodePayload P t a m flags) := by
  unfold parseBuffer decodePayload
  by_cases hdummy : isDummy flags = true
  · rw [if_pos hdummy, if_pos hdummy]
    by_cases hdone : (t a).setupDone = false
    · rw [if_pos hdone, if_pos hdone]
      rfl
    · rw [if_neg hdone, if_neg hdone]
      cases partnerOf P (bindings t) a with
      | none => rfl
      | some b =>
        dsimp only
        by_cases hpending : (t a).pending.isEmpty = false
        · rw [if_pos hpending, if_pos hpending]
          rfl
        · rw [if_neg hpending, if_neg hpending]
          by_cases hshort : m.length < returnHeaderSize
          · rw [if_pos hshort, if_pos hshort]
            rfl
          · rw [if_neg hshort, if_neg hshort, copy_front (by omega) (Nat.le_refl _)]
            simp only [bind, Except.bind, pure, Except.pure]
            rw [fit_take (by omega)]
            rfl
  · rw [if_neg hdummy, if_neg hdummy, relayBuffer_eq P t a hbuffer]
    cases m with
    | nil =>
      -- nothing was decrypted: the first byte is whatever the buffer held
      rw [load_eq (by rw [hbuffer]; decide), relayPayload_nil]
      simp only [bind, Except.bind, pure, Except.pure]
      split
      · rw [if_pos (by decide), if_neg (by simp)]
      · rw [if_neg (by simp)]
    | cons first tail =>
      rw [List.cons_append, load_drop rfl]
      simp only [bind, Except.bind, pure, Except.pure, List.head?_cons, Option.some.injEq]
      by_cases hsetup : first = typeSetup
      · rw [if_pos hsetup, if_pos hsetup]
        by_cases hshort : (first :: tail).length < setupMinLen
        · rw [if_pos hshort, if_pos hshort]
        · rw [if_neg hshort, if_neg hshort, ← List.cons_append,
            setupBuffer_eq _ (Nat.not_lt.mp hshort)]
      · rw [if_neg hsetup, if_neg hsetup]

theorem packetTypeBuffer_eq (hm : m ≠ []) :
    packetTypeBuffer (m ++ rest) m.length = .ok (packetType m) := by
  cases m with
  | nil => exact absurd rfl hm
  | cons first tail =>
    unfold packetTypeBuffer packetType
    rw [List.cons_append, load_drop rfl]
    simp only [bind, Except.bind, pure, Except.pure]
    by_cases hsetup : first = typeSetup
    · rw [if_pos hsetup, if_pos hsetup]
    · rw [if_neg hsetup, if_neg hsetup]
      match hdrop : (first :: tail).drop returnHdrInPayload with
      | [] =>
        have hend := List.drop_eq_nil_iff.mp hdrop
        exact if_neg (by omega)
      | type :: _ =>
        have hlt : returnHdrInPayload < (first :: tail).length := by
          by_contra hge
          rw [List.drop_of_length_le (Nat.not_lt.mp hge)] at hdrop
          cases hdrop
        dsimp only
        by_cases hfirst : first = 0x04
        · rw [if_pos ⟨hfirst, hlt⟩, ← List.cons_append, load_append hlt, load_drop hdrop]
          simp only [hfirst, true_and]
        · rw [if_neg (fun h => hfirst h.1), if_neg (fun h => hfirst h.1)]

/-- A payload of a relayed type is longer than its routing fields. -/
theorem lt_of_packetType {type : UInt8} (h : packetType m = some type) (htype : type ≠ typeSetup) :
    returnHdrInPayload < m.length := by
  unfold packetType at h
  split at h
  · cases h
  · split at h
    · exact absurd (Option.some.inj h).symm htype
    · split at h
      · cases h
      · rename_i hdrop
        by_contra hge
        rw [List.drop_of_length_le (Nat.not_lt.mp hge)] at hdrop
        cases hdrop

theorem addrPort_fit (hroom : ecPubkeyLen + addrBytes ≤ m.length) :
    addrPort (Bytes.fit addrBytes (m.drop ecPubkeyLen))
      = UInt16.ofNat (valueList ((m.drop (ecPubkeyLen + 4)).take 2)) := by
  have hlen : addrBytes ≤ (m.drop ecPubkeyLen).length := by
    rw [List.length_drop]
    omega
  unfold addrPort Bytes.value
  rw [Bytes.toList_read, Bytes.toList_fit_of_le hlen, List.drop_take, List.drop_drop,
    List.take_take]
  rfl

theorem acceptsBuffer_eq (t : Table) (i : Fin maxSessions) (confirmed : Bool) (flags : UInt8) :
    acceptsBuffer P t i confirmed (m ++ rest) m.length flags =
      .ok (confirmed && accepts P t i m flags) := by
  unfold acceptsBuffer accepts
  by_cases hdummy : isDummy flags = true
  · rw [if_pos hdummy, if_pos hdummy, Bool.and_comm]
    rfl
  · rw [if_neg hdummy, if_neg hdummy]
    by_cases hempty : m = []
    · subst hempty
      rw [if_pos (by decide)]
      cases confirmed <;> rfl
    · have hpos := List.length_pos_of_ne_nil hempty
      rw [if_neg (by omega), packetTypeBuffer_eq hempty]
      simp only [bind, Except.bind, pure, Except.pure]
      cases htype : packetType m with
      | none =>
        rw [Bool.and_false]
      | some type =>
        dsimp only
        cases confirmed with
        | false => rfl
        | true =>
          rw [if_neg (by decide), Bool.true_and]
          by_cases hsetup : type = typeSetup
          · rw [if_pos hsetup, if_pos hsetup]
            by_cases hshort : m.length < setupTagOff + macBytes
            · rw [if_pos hshort, decide_eq_false (by omega), Bool.false_and]
            · rw [if_neg hshort, copy_front (by omega) (Nat.le_refl _), decide_eq_true (by omega),
                Bool.true_and]
              dsimp only
              rw [fit_take (by omega)]
              rfl
          · have hlt := lt_of_packetType htype hsetup
            have hroom {n : Nat} (hn : n ≤ returnHdrInPayload) : n ≤ m.length :=
              hn.trans (Nat.le_of_lt hlt)
            have hip : ecPubkeyLen < m.length := hroom (by decide)
            rw [if_neg hsetup, if_neg hsetup, load_append hip, load_eq hip,
              addrPort_fit (hroom (by decide)), List.getD_eq_getElem?_getD,
              List.getElem?_eq_getElem hip, Option.getD_some]
            dsimp only
            by_cases hlocal : m[ecPubkeyLen] = 127
            · rw [if_neg (not_not.mpr hlocal), decide_eq_true hlocal, Bool.true_and]
              cases hdone : (t i).setupDone with
              | false => rfl
              | true =>
                rw [if_neg (by decide), loadLen_append (hroom (by decide)), Bool.true_and]
            · rw [if_pos hlocal, decide_eq_false hlocal]
              rfl

end

/-! The packet. -/

theorem loadLen_eq {array : List UInt8} {off : Nat} (h : off + 2 ≤ array.length) :
    loadLen array off = .ok (valueList ((array.drop off).take 2)) := by
  rw [← List.append_nil array, loadLen_append h, List.append_nil]

/-- The unwrapping, with the fields of the packet where they lie in it. -/
theorem packetSphinxUnwrap_eq (pkt : WirePacket) (key : AesKey) {encLen : Nat}
    (hlen : ((pkt.read headerSize payloadSectionSize).read 0 2).value = encLen) :
    packetSphinxUnwrap P pkt key =
      if encLen < gcmOverhead + innerHdrBytes ∨ payloadSectionSize - 2 < encLen then none
      else
        match cryptoAesDecrypt P key ((pkt.toList.drop (headerSize + 2)).take encLen)
            payloadSectionSize with
        | some (flags :: hi :: lo :: rest) =>
          if rest.length < valueList [hi, lo] then none
          else if maxInnerPayload < valueList [hi, lo] then none
          else some (rest.take (valueList [hi, lo]), flags)
        | _ => none := by
  have hct (n : Nat) (hn : 2 + n ≤ payloadSectionSize) :
      ((pkt.read headerSize payloadSectionSize).read 2 n hn).toList
        = (pkt.toList.drop (headerSize + 2)).take n := by
    rw [Bytes.read_read _ _ _ _ _ (by decide) hn]
    rfl
  subst hlen
  unfold packetSphinxUnwrap
  dsimp only
  split
  · rfl
  · rewrite [hct]
    rfl

theorem unwrapBuffer_eq (pkt : WirePacket) (key : AesKey) {plain payloadOut : List UInt8}
    (hplain : plain.length = payloadSectionSize) (hout : payloadOut.length = maxInnerPayload) :
    unwrapBuffer P pkt.toList key plain payloadOut =
      .ok ((packetSphinxUnwrap P pkt key).map fun out =>
        ⟨out.1 ++ payloadOut.drop out.1.length, out.1.length, out.2⟩) := by
  have hlen : ((pkt.read headerSize payloadSectionSize).read 0 2).value
      = valueList ((pkt.toList.drop headerSize).take 2) := by
    rw [Bytes.read_read _ _ _ _ _ (by decide) (by decide)]
    rfl
  unfold unwrapBuffer
  rw [packetSphinxUnwrap_eq P pkt key hlen, loadLen_eq (by simp), hplain]
  simp only [bind, Except.bind, pure, Except.pure]
  by_cases hbad : valueList ((pkt.toList.drop headerSize).take 2) < gcmOverhead + innerHdrBytes ∨
      payloadSectionSize - 2 < valueList ((pkt.toList.drop headerSize).take 2)
  · rw [if_pos hbad, if_pos hbad]
    rfl
  · have hroom : headerSize + 2 + valueList ((pkt.toList.drop headerSize).take 2)
        ≤ pkt.toList.length := by
      rw [pkt.length_eq]
      simp only [not_or, Nat.not_lt] at hbad
      simp at hbad ⊢
      omega
    rw [if_neg hbad, if_neg hbad, copy_eq hroom (Nat.le_refl _)]
    dsimp only
    cases hdec : cryptoAesDecrypt P key _ payloadSectionSize with
    | none => rfl
    | some decrypted =>
      have hwrite := length_cryptoAesDecrypt_le P hdec
      rw [← hplain] at hwrite
      dsimp only
      rw [memcpy_eq (by omega) hwrite, List.drop_zero, List.take_length]
      dsimp only
      match decrypted with
      | [] | [_] | [_, _] => rfl
      | flags :: hi :: lo :: rest =>
        have hrest : ((flags :: hi :: lo :: rest) ++
            plain.drop (flags :: hi :: lo :: rest).length).drop innerHdrBytes
              = rest ++ plain.drop (flags :: hi :: lo :: rest).length := rfl
        rw [if_neg (by simp), load_append (by simp), load_drop rfl, loadLen_append (by simp)]
        dsimp only
        have hpayload : ((flags :: hi :: lo :: rest).drop 1).take 2 = [hi, lo] := rfl
        have havail : (flags :: hi :: lo :: rest).length - innerHdrBytes = rest.length := rfl
        rw [hpayload, havail]
        by_cases hover : rest.length < valueList [hi, lo]
        · rw [if_pos hover, if_pos hover]
          rfl
        · rw [if_neg hover, if_neg hover]
          by_cases hmax : maxInnerPayload < valueList [hi, lo]
          · rw [if_pos hmax, if_pos hmax]
            rfl
          · have htake : (rest.take (valueList [hi, lo])).length = valueList [hi, lo] := by
              rw [List.length_take]
              omega
            rw [if_neg hmax, if_neg hmax, memcpy_eq (by simp; omega) (by omega), hrest,
              List.take_append_of_le_length (by omega), Option.map_some, htake]

theorem length_packetSphinxUnwrap_le {pkt : WirePacket} {key : AesKey} {payload : List UInt8}
    {flags : UInt8} (h : packetSphinxUnwrap P pkt key = some (payload, flags)) :
    payload.length ≤ maxInnerPayload := by
  rw [packetSphinxUnwrap_eq P pkt key rfl] at h
  split at h
  · cases h
  · split at h
    · split at h
      · cases h
      · split at h
        · cases h
        · cases h
          rw [List.length_take]
          omega
    · cases h

theorem tryBuffer_eq (t : Table) (pkt : WirePacket) (c : Fin maxSessions × AesKey)
    {plain tmp payloadOut : List UInt8} (hplain : plain.length = payloadSectionSize)
    (htmp : tmp.length = maxInnerPayload) (hout : payloadOut.length = maxInnerPayload) :
    tryBuffer P t pkt.toList c plain tmp payloadOut =
      .ok ((acceptCandidate P t pkt c).map fun out =>
        ⟨out.1 ++ payloadOut.drop out.1.length, out.1.length, out.2⟩) := by
  unfold tryBuffer acceptCandidate
  rw [unwrapBuffer_eq P pkt c.2 hplain htmp]
  simp only [bind, Except.bind, pure, Except.pure]
  cases hunwrap : packetSphinxUnwrap P pkt c.2 with
  | none => rfl
  | some out =>
    obtain ⟨payload, flags⟩ := out
    have hlen := length_packetSphinxUnwrap_le P hunwrap
    rw [Option.map_some, Option.filter_some]
    dsimp only
    rw [acceptsBuffer_eq]
    dsimp only
    split
    · rw [memcpy_eq (by simp) (by omega), List.drop_zero, List.take_left' rfl]
      rfl
    · rfl

theorem searchBuffer_eq (live : Fin maxSessions → Table) (pkt : WirePacket)
    (plain : Fin maxSessions → Bytes payloadSectionSize)
    (tmp : Fin maxSessions → Bytes maxInnerPayload) (payloadOut : Bytes maxInnerPayload)
    (cs : List (Fin maxSessions × AesKey)) :
    searchBuffer P live pkt.toList (fun i => (plain i).toList) (fun i => (tmp i).toList)
      payloadOut.toList cs =
        .ok ((search P live pkt cs).map fun out =>
          (out.1,
          ⟨out.2.1 ++ payloadOut.toList.drop out.2.1.length, out.2.1.length, out.2.2⟩)) := by
  induction cs with
  | nil => rfl
  | cons c cs ih =>
    unfold searchBuffer search
    rw [tryBuffer_eq P (live c.1) pkt c (plain c.1).length_eq (tmp c.1).length_eq
      payloadOut.length_eq]
    simp only [bind, Except.bind, pure, Except.pure]
    cases acceptCandidate P (live c.1) pkt c with
    | none => exact ih
    | some out => rfl

theorem search_length_le {live : Fin maxSessions → Table} {pkt : WirePacket}
    {cs : List (Fin maxSessions × AesKey)} {a : Fin maxSessions} {payload : List UInt8}
    {flags : UInt8} (h : search P live pkt cs = some (a, payload, flags)) :
    payload.length ≤ maxInnerPayload := by
  induction cs with
  | nil => cases h
  | cons c cs ih =>
    unfold search at h
    split at h
    · rename_i out haccept
      cases h
      exact length_packetSphinxUnwrap_le P (Option.filter_eq_some_iff.mp haccept).1
    · exact ih h

/-- The buffers hold no more than the packet, and the decoding is that of the payload. -/
theorem decodeBuffer_eq (snapshot : Table) (live : Fin maxSessions → Table) (now : Table)
    (pkt : WirePacket) (plain : Fin maxSessions → Bytes payloadSectionSize)
    (tmp : Fin maxSessions → Bytes maxInnerPayload) (payload : Bytes maxInnerPayload) :
    decodeBuffer P snapshot live now pkt plain tmp payload =
      .ok (decode P snapshot live now pkt) := by
  have hhint : Bytes.fit sgHintBytes ((pkt.toList.drop (wirePacketSize - sgHintBytes)).take
      sgHintBytes) = pkt.read (wirePacketSize - sgHintBytes) sgHintBytes :=
    Bytes.fit_append (pkt.read (wirePacketSize - sgHintBytes) sgHintBytes) [] ▸ by
      rw [List.append_nil]
      rfl
  unfold decodeBuffer decode candidates
  rw [copy_eq (by simp) (Nat.le_refl _)]
  simp only [bind, Except.bind, pure, Except.pure, hhint]
  rw [searchBuffer_eq]
  dsimp only
  cases hsearch : search P live pkt _ with
  | none => rfl
  | some out =>
    obtain ⟨a, m, flags⟩ := out
    have hlen := search_length_le P hsearch
    refine parseBuffer_eq P now a flags ?_
    rw [List.length_append, List.length_drop, payload.length_eq]
    exact Nat.add_sub_cancel' hlen

/-- The checks and the parsing of one decrypted payload in its buffer. -/
def handlePayload (t : Table) (a : Fin maxSessions) (confirmed : Bool)
    (payload : Bytes maxInnerPayload) (plen : Nat) (flags : UInt8) : Except Overrun Decoded := do
  if ← acceptsBuffer P t a confirmed payload.toList plen flags then
    parseBuffer P t a payload.toList plen flags
  else return .drop

/-- No access leaves its buffer. What a packet does not depend on what the buffers held before,
and what a payload does depends on its first `plen` bytes only. -/
theorem decoding_of_payload_bytes (P : Primitives) :
    (∀ (snapshot : Table) (live : Fin maxSessions → Table) (now : Table) (pkt : WirePacket),
      ∃ out, ∀ plain tmp payload,
        decodeBuffer P snapshot live now pkt plain tmp payload = .ok out) ∧
    ∀ (t : Table) (a : Fin maxSessions) (confirmed : Bool) (flags : UInt8) (plen : Nat)
      (payload payload' : Bytes maxInnerPayload), plen ≤ maxInnerPayload →
        payload.toList.take plen = payload'.toList.take plen →
          ∃ out, handlePayload P t a confirmed payload plen flags = .ok out ∧
            handlePayload P t a confirmed payload' plen flags = .ok out := by
  refine ⟨fun snapshot live now pkt => ⟨_, decodeBuffer_eq P snapshot live now pkt⟩, ?_⟩
  intro t a confirmed flags plen payload payload' hplen hsame
  have hhandle (b : Bytes maxInnerPayload) (m : List UInt8) (hm : b.toList.take plen = m) :
      handlePayload P t a confirmed b plen flags =
        .ok (if (confirmed && accepts P t a m flags) = true then decodePayload P t a m flags
          else .drop) := by
    subst hm
    have hlen : (b.toList.take plen).length = plen := by simp; omega
    have hsplit : b.toList = b.toList.take plen ++ b.toList.drop plen :=
      (List.take_append_drop plen b.toList).symm
    have haccepts : acceptsBuffer P t a confirmed (b.toList.take plen ++ b.toList.drop plen)
        (b.toList.take plen).length flags = _ := acceptsBuffer_eq P t a confirmed flags
    have hparse : parseBuffer P t a (b.toList.take plen ++ b.toList.drop plen)
        (b.toList.take plen).length flags = _ :=
      parseBuffer_eq P t a flags (by rw [← hsplit, b.length_eq])
    rw [← hsplit, hlen] at haccepts hparse
    unfold handlePayload
    rw [haccepts, hparse]
    simp only [bind, Except.bind, pure, Except.pure]
    split <;> rfl
  exact ⟨_, hhandle payload _ rfl, hhandle payload' _ hsame.symm⟩

/-- A sending session that is bound to the next slot. -/
def boundTable : Table := fun i =>
  if i = 0 then
    { zeroSession with inUse := true, role := sessionRoleA, setupDone := true, boundB := some 1 }
  else if i = 1 then { zeroSession with inUse := true, role := sessionRoleB } else zeroSession

/-- A PUT that ends behind its nonce, with `next` behind it in the buffer. -/
def cutPut (next : UInt8) : Bytes maxInnerPayload :=
  Bytes.fit maxInnerPayload ([0x04] ++ List.replicate (ecPubkeyLen - 1) 0 ++ [127] ++
    List.replicate (returnHdrInPayload - ecPubkeyLen - 1) 0 ++ [typePut, 9, 9, next])

theorem decoding_of_payload_bytes_cutPut :
    ∃ out, handlePayload .sample boundTable 0 true (cutPut 1) 248 pktReal = .ok out ∧
      handlePayload .sample boundTable 0 true (cutPut 7) 248 pktReal = .ok out :=
  (decoding_of_payload_bytes .sample).2 boundTable 0 true pktReal 248 (cutPut 1) (cutPut 7)
    (by decide) (by decide +kernel)

end AnonSecNet.Gateway
