import AnonSecNet.MixNode.Sessions

/-! `handle_data` and `handle_return` of `mix_node.c`, run to the end by one thread. -/
namespace AnonSecNet.MixNode
open Octets
variable (P : Primitives)

def inRange (base count : Nat) (port : UInt16) : Prop :=
  base ≤ port.toNat ∧ port.toNat < base + count

instance (base count : Nat) (port : UInt16) : Decidable (inRange base count port) :=
  inferInstanceAs (Decidable (_ ∧ _))

/-- `is_final`: a response port of the client or the sender. -/
def isFinal (port : UInt16) : Prop :=
  inRange clientResponsePort clientResponsePortCount port ∨
    inRange senderResponsePort senderResponsePortCount port

instance (port : UInt16) : Decidable (isFinal port) := inferInstanceAs (Decidable (_ ∨ _))

def isAllowedNextHop (ip : Bytes 4) (port : UInt16) : Prop :=
  ip = localhostBytes ∧
    (port = portServiceGw ∨ port = portCacheServer ∨ isFinal port ∨ port ∈ fixedMixPorts ∨
      inRange poolPortBase poolSize port)

instance (ip : Bytes 4) (port : UInt16) : Decidable (isAllowedNextHop ip port) :=
  inferInstanceAs (Decidable (_ ∧ _))

/-- The next port and the packet sent there. `hopDecoy` is the `ASN_HOP_DECOY` build. -/
def handleData (hopDecoy : Bool) (t : Table) (pkt : WirePacket) (now : Nat) (pad : WirePacket) :
    Option (UInt16 × WirePacket) × Table :=
  match sessionFind t (outerHint pkt) now with
  | (none, t) => (none, t)
  | (some f, t) =>
    match packetSphinxPeel P pkt f.keys.headerEncKey f.keys.headerMacKey pad with
    | none => (none, t)
    | some (hop, out) =>
      let t := sessionConfirmHintMatch P t f
      let (replayed, t) := sessionCheckNonceByIdx t f.idx f.generation hop.nonce
      if replayed then (none, t)
      else if hopDecoy ∧ hop.hopFlag = hopDropMarker then (none, t)
      else if isAllowedNextHop localhostBytes hop.nextPort then (some (hop.nextPort, out), t)
      else (none, t)

def returnHeaderOf (wire : WirePacket) : ReturnHeader := wire.read 0 returnHeaderSize

/-- Where `handle_return` sends the packet; the mode byte is left out on final delivery. -/
structure Delivery where
  ip : Bytes 4
  port : UInt16
  final : Bool
  wire : WirePacket

/-- The outgoing packet: the shifted header and the payload with one layer taken off. -/
def returnOut (keys : SessionKeys) (wire : WirePacket) (shifted : ReturnHeader) : WirePacket :=
  let payload : Bytes returnPayloadSize := wire.read returnHeaderSize returnPayloadSize
  shifted ++ packetAesCtrXor P keys.returnBlindKey payload returnPayload_le

def handleReturn (t : Table) (wire : WirePacket) (now : Nat) (pad : ReturnHeader) :
    Option Delivery × Table :=
  match sessionFind t (returnOuterHint (returnHeaderOf wire)) now with
  | (none, t) => (none, t)
  | (some f, t) =>
    match packetPeelReturnHeader P (returnHeaderOf wire) f.keys.headerEncKey
        f.keys.headerMacKey pad with
    | none => (none, t)
    | some (next, shifted) =>
      let t := sessionConfirmHintMatch P t f
      let (replayed, t) := sessionCheckReturnNonceByIdx t f.idx f.generation next.nonce
      if replayed then (none, t)
      else if isAllowedNextHop next.nextIp next.nextPort then
        (some ⟨next.nextIp, next.nextPort, decide (isFinal next.nextPort),
          returnOut P f.keys wire shifted⟩, t)
      else (none, t)

end AnonSecNet.MixNode
