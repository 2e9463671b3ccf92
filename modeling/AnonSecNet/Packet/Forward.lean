import AnonSecNet.Crypto

/-! The forward path of `packet.c`: building a packet, peeling it at a relay and
unwrapping it at the gateway. Random bytes are arguments. -/
namespace AnonSecNet
open Octets
variable (P : Primitives)

/-- `hop_session_t`. -/
structure HopSession where
  headerEncKey : AesKey
  headerMacKey : AesKey
  blindKey : AesKey
  hintSeed : AesKey
deriving DecidableEq

/-- `derive_hop`, the same in the client and the sender. -/
def deriveHop (master : AesKey) : HopSession :=
  let (henc, hmk, bkey) := packetDeriveHopKeys P master
  { headerEncKey := henc, headerMacKey := hmk, blindKey := bkey,
    hintSeed := packetDeriveHintSeed P master }

/-- `sphinx_path_t`, without the address of the entry node. -/
structure SphinxPath where
  hops : Fin nPathHops → HopSession
  e2eKey : AesKey
  hopPorts : Fin nPathHops → UInt16
  sgPort : UInt16
  sgHint : Bytes sgHintBytes

/-- `hop_info_t`. -/
structure HopInfo where
  nextIp : Bytes 4
  nextPort : UInt16
  blindKey : AesKey
  nonce : Bytes nonceBytes
  hopFlag : UInt8
deriving DecidableEq

/-- Masters and a path on which packets can be built and evaluated. -/
def sampleMaster (i : Nat) : AesKey := Bytes.fit aesKeyLen [UInt8.ofNat (i + 1), 5]

def SphinxPath.sample : SphinxPath where
  hops i := deriveHop .sample (sampleMaster i)
  e2eKey := sampleMaster 3
  hopPorts i := UInt16.ofNat (9004 + i)
  sgPort := 0
  sgHint := packetDeriveSgHint .sample (sampleMaster 3)

/-- The bytes `packet_sphinx_build_ex` draws: the GCM nonce and one nonce a hop. -/
structure SphinxRandom where
  gcmNonce : Bytes gcmNonceLen
  hopNonce : Fin nPathHops → Bytes nonceBytes

def SphinxRandom.sample (k : Nat) : SphinxRandom where
  gcmNonce := bigEndian gcmNonceLen k
  hopNonce i := bigEndian nonceBytes (3 * k + i)

def localhostBytes : Bytes 4 := ⟨[127, 0, 0, 1], rfl⟩

def addrPlain (port : UInt16) : Addr := localhostBytes ++ bigEndian 2 port.toNat

def nextHopPort (path : SphinxPath) (hop : Fin nPathHops) : UInt16 :=
  if h : hop.val + 1 < nPathHops then path.hopPorts ⟨hop.val + 1, h⟩
  else if path.sgPort = 0 then portServiceGw else path.sgPort

def hopFlagOf (dropAtHop : Int) (hop : Fin nPathHops) : UInt8 :=
  if (hop.val : Int) = dropAtHop then hopDropMarker else hopFlagForward

/-- `[flags(1)][payload_len(2)][payload]`. -/
def innerBuffer (flags : UInt8) (payload : List UInt8) : List UInt8 :=
  flags :: (bigEndian 2 payload.length).toList ++ payload

/-- Step 2: `[enc_len(2)][GCM ciphertext][zero padding][sg_hint]`. -/
def e2eSection (path : SphinxPath) (payload : List UInt8) (flags : UInt8)
    (gcmNonce : Bytes gcmNonceLen) : Option (Bytes payloadSectionSize) :=
  (cryptoAesEncrypt P path.e2eKey gcmNonce (innerBuffer flags payload)
    (payloadSectionSize - 2)).map fun ct =>
      (((Bytes.zero payloadSectionSize).write 2 (Bytes.ofList ct.1)
        (by have := ct.2; simp at this ⊢; omega)).write 0
          (bigEndian 2 ct.1.length)).write (payloadSectionSize - sgHintBytes) path.sgHint

/-- Step 2b, the nonce as it travels in the header. -/
def hopEncNonce (hop : HopSession) (nonce : Bytes nonceBytes) : Bytes nonceBytes :=
  packetAesCtrXor P hop.headerEncKey nonce

def hopIv (hop : HopSession) (nonce : Bytes nonceBytes) : Bytes 16 :=
  deriveHeaderIv P (hopEncNonce P hop nonce)

/-- Step 3: the innermost layer is the last hop's. -/
def blindPayload (path : SphinxPath) (rnd : SphinxRandom) (hops : List (Fin nPathHops))
    (sect : Bytes payloadSectionSize) : Bytes payloadSectionSize :=
  hops.foldr (fun hop acc =>
    packetAesCtrXorIv P (path.hops hop).blindKey (hopIv P (path.hops hop) (rnd.hopNonce hop)) acc)
    sect

def restPlain (port : UInt16) (blindKey : AesKey) (flag : UInt8) : Bytes 39 :=
  addrPlain port ++ blindKey ++ (⟨[flag], rfl⟩ : Bytes flagBytes)

/-- `enc_addr || enc_bkey || enc_flags`. -/
def restEnc (hop : HopSession) (port : UInt16) (flag : UInt8) (nonce : Bytes nonceBytes) :
    Bytes 39 :=
  packetAesCtrXorIv P hop.headerEncKey (hopIv P hop nonce) (restPlain port hop.blindKey flag)

/-- Step 4, one block: the MAC covers everything before it and not the hint after it. -/
def headerBlock (hop : HopSession) (port : UInt16) (flag : UInt8) (nonce : Bytes nonceBytes)
    (pktCounter : Nat) : Bytes headerBlockSize :=
  let covered := restEnc P hop port flag nonce ++ hopEncNonce P hop nonce
  covered ++ packetHmac P hop.headerMacKey.toList covered.toList
    ++ packetDeriveHopHint P hop.hintSeed pktCounter

def pathBlock (path : SphinxPath) (pktCounter : Nat) (dropAtHop : Int) (rnd : SphinxRandom)
    (hop : Fin nPathHops) : Bytes headerBlockSize :=
  headerBlock P (path.hops hop) (nextHopPort path hop) (hopFlagOf dropAtHop hop)
    (rnd.hopNonce hop) pktCounter

def packetSphinxBuildEx (path : SphinxPath) (payload : List UInt8) (flags : UInt8)
    (pktCounter : Nat) (dropAtHop : Int) (rnd : SphinxRandom) : Option WirePacket :=
  if dropAtHop < -1 ∨ (nPathHops : Int) ≤ dropAtHop then none
  else if maxInnerPayload < payload.length then none
  else
    (e2eSection P path payload flags rnd.gcmNonce).map fun sect =>
      let block := pathBlock P path pktCounter dropAtHop rnd
      let header : Bytes headerSize := block 0 ++ block 1 ++ block 2
      header ++ blindPayload P path rnd (List.finRange nPathHops) sect

def packetSphinxBuild (path : SphinxPath) (payload : List UInt8) (flags : UInt8)
    (pktCounter : Nat) (rnd : SphinxRandom) : Option WirePacket :=
  packetSphinxBuildEx P path payload flags pktCounter (-1) rnd

def packetSphinxDummy (path : SphinxPath) (randPayload : Bytes maxInnerPayload)
    (pktCounter : Nat) (rnd : SphinxRandom) : Option WirePacket :=
  packetSphinxBuild P path randPayload.toList (pktDummy ||| pktDestService) pktCounter rnd

def packetSphinxDecoyHop (path : SphinxPath) (randPayload : Bytes maxInnerPayload)
    (pktCounter : Nat) (dropAtHop : Int) (rnd : SphinxRandom) : Option WirePacket :=
  if dropAtHop < 0 ∨ (nPathHops : Int) ≤ dropAtHop then none
  else
    packetSphinxBuildEx P path randPayload.toList (pktDummy ||| pktDestService) pktCounter
      dropAtHop rnd

/-- The hint field of the outermost block. -/
def outerHint (pkt : WirePacket) : Hint := pkt.read 63 hintBytes

def decodeHop (rest : Bytes 39) (nonce : Bytes nonceBytes) : HopInfo :=
  { nextIp := rest.read 0 4
    nextPort := UInt16.ofNat (rest.read 4 2).value
    blindKey := rest.read addrBytes blindKeyBytes
    nonce := nonce
    hopFlag := rest.byte 38 }

/-- `packet_sphinx_peel`. `pad` is the random filling of the output buffer; the hint
argument of the source is not read. -/
def packetSphinxPeel (pkt : WirePacket) (headerEncKey headerMacKey : AesKey)
    (pad : WirePacket) : Option (HopInfo × WirePacket) :=
  if packetHmac P headerMacKey.toList (pkt.read 0 47).toList ≠ pkt.read 47 macBytes then none
  else
    let encNonce : Bytes nonceBytes := pkt.read 39 nonceBytes
    let iv := deriveHeaderIv P encNonce
    let rest : Bytes 39 := packetAesCtrXorIv P headerEncKey iv (pkt.read 0 39)
    let hop := decodeHop rest (packetAesCtrXor P headerEncKey encNonce)
    let payloadOut :=
      packetAesCtrXorIv P hop.blindKey iv (pkt.read headerSize payloadSectionSize)
    let remainingHeader : Bytes (headerSize - headerBlockSize) :=
      pkt.read headerBlockSize (headerSize - headerBlockSize)
    some (hop, (pad.write 0 remainingHeader).write headerSize payloadOut)

/-- `packet_sphinx_unwrap`: the payload, whose length is the field read back, and the flags. -/
def packetSphinxUnwrap (pkt : WirePacket) (e2eKey : AesKey) : Option (List UInt8 × UInt8) :=
  let sect : Bytes payloadSectionSize := pkt.read headerSize payloadSectionSize
  let encLen := (sect.read 0 2).value
  if h : encLen < gcmOverhead + innerHdrBytes ∨ payloadSectionSize - 2 < encLen then none
  else
    match cryptoAesDecrypt P e2eKey
        (sect.read 2 encLen (by simp at h ⊢; omega)).toList payloadSectionSize with
    | some (flags :: hi :: lo :: rest) =>
      let payloadLen := valueList [hi, lo]
      if rest.length < payloadLen then none
      else if maxInnerPayload < payloadLen then none
      else some (rest.take payloadLen, flags)
    | _ => none

end AnonSecNet
