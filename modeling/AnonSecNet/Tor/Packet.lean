import AnonSecNet.Packet.Forward

/-! `packet.c` of the Tor baseline. A header block has a hint and no nonce, and the payload section
does not say how long its ciphertext is. -/
namespace AnonSecNet.Tor.Sphinx
open Octets
variable (P : Primitives)

@[simp] abbrev headerBlockSize : Nat := 87
@[simp] abbrev headerSize : Nat := 261
@[simp] abbrev payloadSectionSize : Nat := 763
@[simp] abbrev maxInnerPayload : Nat := 499

/-- `enc_addr || enc_bkey || enc_flags`. -/
@[simp] abbrev combinedSize : Nat := 39

theorem combined_le : combinedSize ≤ wirePacketSize := by decide

theorem combined_within : 0 + combinedSize ≤ wirePacketSize := by decide

theorem mac_within : combinedSize + macBytes ≤ wirePacketSize := by decide

theorem section_le : payloadSectionSize ≤ wirePacketSize := by decide

theorem section_within : headerSize + payloadSectionSize ≤ wirePacketSize := by decide

theorem remaining_within :
    headerBlockSize + (headerSize - headerBlockSize) ≤ wirePacketSize := by decide

theorem remaining_le : 0 + (headerSize - headerBlockSize) ≤ wirePacketSize := by decide

theorem ip_within : 0 + 4 ≤ combinedSize := by decide

theorem port_within : 4 + 2 ≤ combinedSize := by decide

theorem blindKey_within : addrBytes + blindKeyBytes ≤ combinedSize := by decide

theorem flag_within : addrBytes + blindKeyBytes < combinedSize := by decide

/-- `hop_session_t`. -/
structure HopSession where
  headerEncKey : AesKey
  headerMacKey : AesKey
  blindKey : AesKey
  hint : Hint

/-- `sphinx_path_t`, without the address of the entry node. -/
structure SphinxPath where
  hops : Fin nPathHops → HopSession
  e2eKey : AesKey
  hopPorts : Fin nPathHops → UInt16
  sgPort : UInt16

/-- `hop_info_t`. -/
@[ext] structure HopInfo where
  nextIp : Bytes 4
  nextPort : UInt16
  blindKey : AesKey
deriving DecidableEq

def nextHopPort (path : SphinxPath) (hop : Fin nPathHops) : UInt16 :=
  if h : hop.val + 1 < nPathHops then path.hopPorts ⟨hop.val + 1, h⟩
  else if path.sgPort = 0 then portServiceGw else path.sgPort

/-- The cover flag is in the first block alone. -/
def flagOf (isCover : UInt8) (hop : Fin nPathHops) : UInt8 := if hop.val = 0 then isCover else 0

/-- Steps 1 and 2: the ciphertext, padded with zeros. -/
def e2eSection (path : SphinxPath) (payload : List UInt8) (flags : UInt8)
    (gcmNonce : Bytes gcmNonceLen) : Option (Bytes payloadSectionSize) :=
  (cryptoAesEncrypt P path.e2eKey gcmNonce (innerBuffer flags payload) payloadSectionSize).map
    fun ct => Bytes.fit payloadSectionSize ct.1

/-- Step 3: the innermost layer is the last hop's. -/
def blindPayload (path : SphinxPath) (hops : List (Fin nPathHops))
    (sect : Bytes payloadSectionSize) : Bytes payloadSectionSize :=
  hops.foldr (fun hop acc => packetAesCtrXor P (path.hops hop).blindKey acc section_le) sect

def combinedEnc (hop : HopSession) (port : UInt16) (flag : UInt8) : Bytes combinedSize :=
  packetAesCtrXor P hop.headerEncKey (restPlain port hop.blindKey flag) combined_le

/-- Step 4, one block: the MAC covers everything before it and not the hint after it. -/
def headerBlock (hop : HopSession) (port : UInt16) (flag : UInt8) : Bytes headerBlockSize :=
  combinedEnc P hop port flag
    ++ packetHmac P hop.headerMacKey.toList (combinedEnc P hop port flag).toList ++ hop.hint

def pathBlock (path : SphinxPath) (isCover : UInt8) (hop : Fin nPathHops) :
    Bytes headerBlockSize :=
  headerBlock P (path.hops hop) (nextHopPort path hop) (flagOf isCover hop)

def packetSphinxBuild (path : SphinxPath) (payload : List UInt8) (flags isCover : UInt8)
    (gcmNonce : Bytes gcmNonceLen) : Option WirePacket :=
  if maxInnerPayload < payload.length then none
  else
    (e2eSection P path payload flags gcmNonce).map fun sect =>
      let block := pathBlock P path isCover
      let header : Bytes headerSize := block 0 ++ block 1 ++ block 2
      header ++ blindPayload P path (List.finRange nPathHops) sect

def decodeHop (combined : Bytes combinedSize) : HopInfo × UInt8 :=
  ({ nextIp := combined.read 0 4 ip_within
     nextPort := UInt16.ofNat (combined.read 4 2 port_within).value
     blindKey := combined.read addrBytes blindKeyBytes blindKey_within },
    combined.byte (addrBytes + blindKeyBytes) flag_within)

/-- `packet_sphinx_peel`: the next hop, the cover flag and the packet for the next hop, with
zeros where the last block was. -/
def packetSphinxPeel (pkt : WirePacket) (headerEncKey headerMacKey : AesKey) :
    Option (HopInfo × UInt8 × WirePacket) :=
  let enc : Bytes combinedSize := pkt.read 0 combinedSize combined_within
  if packetHmac P headerMacKey.toList enc.toList ≠ pkt.read combinedSize macBytes mac_within then
    none
  else
    let (hop, flag) := decodeHop (packetAesCtrXor P headerEncKey enc combined_le)
    let payloadOut := packetAesCtrXor P hop.blindKey
      (pkt.read headerSize payloadSectionSize section_within) section_le
    let remainingHeader : Bytes (headerSize - headerBlockSize) :=
      pkt.read headerBlockSize (headerSize - headerBlockSize) remaining_within
    some (hop, flag, ((Bytes.zero wirePacketSize).write 0 remainingHeader remaining_le).write
      headerSize payloadOut section_within)

/-- The scan backward for the last non-zero byte, not below the shortest ciphertext. -/
def trimZeros (ct : List UInt8) : (trim : Nat) → Nat
  | 0 => 0
  | trim + 1 =>
    if gcmOverhead + 3 < trim + 1 ∧ ct[trim]? = some 0 then trimZeros ct trim else trim + 1

/-- The two attempts: with the whole section, and with what the scan leaves of it. -/
def openSection (e2eKey : AesKey) (ct : List UInt8) : Option (List UInt8) :=
  match cryptoAesDecrypt P e2eKey ct payloadSectionSize with
  | some plain => some plain
  | none =>
    cryptoAesDecrypt P e2eKey (ct.take (max (trimZeros ct ct.length) (gcmOverhead + 3)))
      payloadSectionSize

/-- The payload, whose length is the field read back, and the flags. -/
def readInner : List UInt8 → Option (List UInt8 × UInt8)
  | flags :: hi :: lo :: rest =>
    let payloadLen := valueList [hi, lo]
    if rest.length < payloadLen then none
    else if maxInnerPayload < payloadLen then none
    else some (rest.take payloadLen, flags)
  | _ => none

def packetSphinxUnwrap (pkt : WirePacket) (e2eKey : AesKey) : Option (List UInt8 × UInt8) :=
  (openSection P e2eKey (pkt.read headerSize payloadSectionSize section_within).toList).bind
    readInner

end AnonSecNet.Tor.Sphinx
