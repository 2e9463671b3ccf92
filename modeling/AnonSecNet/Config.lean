import AnonSecNet.Foundation.Octets

/-! The constants of `config.h` and `node_pool.h` that the modelled functions use. -/
namespace AnonSecNet
open Octets

@[simp] abbrev nPathHops : Nat := 3
instance : NeZero nPathHops := ⟨by decide⟩
@[simp] abbrev addrBytes : Nat := 6
@[simp] abbrev blindKeyBytes : Nat := 32
@[simp] abbrev flagBytes : Nat := 1
@[simp] abbrev nonceBytes : Nat := 8
@[simp] abbrev macBytes : Nat := 16
@[simp] abbrev hintBytes : Nat := 32
@[simp] abbrev sgHintBytes : Nat := macBytes
@[simp] abbrev aesKeyLen : Nat := 32

@[simp] abbrev headerBlockSize : Nat := 95
@[simp] abbrev headerSize : Nat := 285
@[simp] abbrev wirePacketSize : Nat := 1024
@[simp] abbrev payloadSectionSize : Nat := 739

@[simp] abbrev gcmNonceLen : Nat := 12
@[simp] abbrev gcmTagLen : Nat := 16
@[simp] abbrev gcmOverhead : Nat := 28

@[simp] abbrev returnNonceBytes : Nat := 4
@[simp] abbrev returnBlockSize : Nat := 58
@[simp] abbrev returnHeaderSize : Nat := 174
@[simp] abbrev returnPayloadSize : Nat := 850
@[simp] abbrev slotNonceBytes : Nat := 2

@[simp] abbrev ecPubkeyLen : Nat := 65
@[simp] abbrev innerHdrBytes : Nat := 3
@[simp] abbrev returnHdrInPayload : Nat := 245
@[simp] abbrev maxInnerPayload : Nat := 463

def pktReal : UInt8 := 0x00
def pktDummy : UInt8 := 0x01
def pktDestService : UInt8 := 0x00

/-- Request types, the first byte behind the routing fields of a request. -/
def typeSetup : UInt8 := 0x00
def typeGet : UInt8 := 0x01
def typePut : UInt8 := 0x02
def typeHandshakeInit : UInt8 := 0x03
def typeHandshakePoll : UInt8 := 0x04
def typeHeartbeat : UInt8 := 0x05
def typeHandshakeRespond : UInt8 := 0x06

/-- The types of the requests that are relayed to the cache server. -/
inductive RequestType where
  | get
  | put
  | handshakeInit
  | handshakePoll
  | heartbeat
  | handshakeRespond
deriving DecidableEq

def RequestType.code : RequestType → UInt8
  | .get => typeGet
  | .put => typePut
  | .handshakeInit => typeHandshakeInit
  | .handshakePoll => typeHandshakePoll
  | .heartbeat => typeHeartbeat
  | .handshakeRespond => typeHandshakeRespond

def RequestType.ofCode (code : UInt8) : Option RequestType :=
  [.get, .put, .handshakeInit, .handshakePoll, .heartbeat, .handshakeRespond].find?
    fun type => type.code = code

@[simp] theorem RequestType.ofCode_code (type : RequestType) : ofCode type.code = some type := by
  cases type <;> rfl

def hopFlagForward : UInt8 := 0x00
def hopDropMarker : UInt8 := 0xC3

def hintWindow : Nat := 64
@[simp] abbrev hintSafetyMargin : Nat := 32
def hintCoverCounterBase : Nat := 2 ^ 62

def maxSessions : Nat := 1024
def replayWindow : Nat := 1024
instance : NeZero maxSessions := ⟨by decide⟩
instance : NeZero replayWindow := ⟨by decide⟩
def sessionTtlMs : Nat := 5 * 60 * 1000

def pendingRespQueue : Nat := 32
def pendingResponseMaxWaitMs : Nat := 400

def portServiceGw : UInt16 := 9010
def portCacheServer : UInt16 := 9012

/-- Inclusive first port and number of ports of each range the relays allow. -/
def clientResponsePort : Nat := 9020
def clientResponsePortCount : Nat := 20
def senderResponsePort : Nat := 9046
def senderResponsePortCount : Nat := 16
def poolPortBase : Nat := 9100
def poolSize : Nat := 100

/-! Bounds that accesses of the packet and of the tables in several modules share. -/

theorem ecPubkeyLen_pos : 0 < ecPubkeyLen := by decide

theorem one_lt_ecPubkeyLen : 1 < ecPubkeyLen := by decide

theorem payload_within : headerSize + payloadSectionSize ≤ wirePacketSize := by decide

theorem returnPayload_within : returnHeaderSize + returnPayloadSize ≤ wirePacketSize := by decide

theorem returnPayload_le : returnPayloadSize ≤ wirePacketSize := by decide

theorem sgHint_within : wirePacketSize - sgHintBytes + sgHintBytes ≤ wirePacketSize := by decide

theorem senderResponsePortCount_pos : 0 < senderResponsePortCount := by decide

/-- `PORT_MIX_I … PORT_MIX_Z` and `PORT_MIX_1 … PORT_MIX_C`. -/
def fixedMixPorts : List UInt16 :=
  [9040, 9041, 9042, 9043, 9044, 9045, 9004, 9005, 9006, 9007, 9008, 9009]

/-- The bits of a `LONG` or a `DWORD` that was counted up to `k`: both are a `long` of 64 bits. -/
def longValue (k : Nat) : Nat := k % 2 ^ 64

/-- The difference of two `GetTickCount` values, again a `DWORD`. -/
def ticksSince (now thenMs : Nat) : Nat := longValue (now + (2 ^ 64 - longValue thenMs))

theorem longValue_lt (k : Nat) : longValue k < 2 ^ 64 := Nat.mod_lt k (by decide)

theorem longValue_of_lt {k : Nat} (hk : k < 2 ^ 64) : longValue k = k := Nat.mod_eq_of_lt hk

theorem ticksSince_of_le {now thenMs : Nat} (hle : thenMs ≤ now) (hlt : now - thenMs < 2 ^ 64) :
    ticksSince now thenMs = now - thenMs := by
  unfold ticksSince longValue
  omega

theorem hop_cases (i : Fin nPathHops) : i = 0 ∨ i = 1 ∨ i = 2 := by
  revert i
  decide

/-- Session roles: sending path and receiving path. -/
def sessionRoleA : UInt8 := 0x01
def sessionRoleB : UInt8 := 0x02

/-- `strlen(label)` bytes of an ASCII label. -/
def labelBytes (s : String) : List UInt8 := s.toList.map fun c => UInt8.ofNat c.toNat

def labelHeaderEnc : List UInt8 := labelBytes "ansn-hdrenc-v1"
def labelHeaderMac : List UInt8 := labelBytes "ansn-hdrmac-v1"
def labelBlindKey : List UInt8 := labelBytes "ansn-blind-v1"
def labelBinding : List UInt8 := labelBytes "binding"
def labelSgHint : List UInt8 := labelBytes "ansn-sghint-v1"
def labelHintSeed : List UInt8 := labelBytes "ansn-hintseed-v1"

abbrev AesKey : Type := Bytes aesKeyLen
abbrev WirePacket : Type := Bytes wirePacketSize
abbrev Addr : Type := Bytes addrBytes
abbrev Hint : Type := Bytes hintBytes
abbrev Mac : Type := Bytes macBytes

end AnonSecNet
