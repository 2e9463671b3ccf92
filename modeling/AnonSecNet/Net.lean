import AnonSecNet.Config

/-! The padded frames of `net.c`. -/
namespace AnonSecNet
open Octets

@[simp] abbrev paddedFrameLenBytes : Nat := 2

/-- A frame of `WIRE_PACKET_SIZE` bytes over the random bytes `pad`. -/
def netSendPaddedFrame (payload : List UInt8) (pad : WirePacket) : Option WirePacket :=
  if h : wirePacketSize - paddedFrameLenBytes < payload.length then none
  else
    some ((pad.write 0 (bigEndian 2 payload.length)).write paddedFrameLenBytes
      (Bytes.ofList payload) (by simp at h ⊢; omega))

def netRecvPaddedFrame (frame : WirePacket) (maxLen : Nat) : Option (List UInt8) :=
  let len := (frame.read 0 2).value
  if maxLen < len ∨ wirePacketSize - paddedFrameLenBytes < len then none
  else some ((frame.toList.drop paddedFrameLenBytes).take len)

theorem netRecvPaddedFrame_sent {payload : List UInt8} {pad frame : WirePacket} {maxLen : Nat}
    (h : netSendPaddedFrame payload pad = some frame) (hlen : payload.length ≤ maxLen) :
    netRecvPaddedFrame frame maxLen = some payload := by
  unfold netSendPaddedFrame at h
  split at h
  · cases h
  · rename_i hfits
    obtain rfl := Option.some.inj h
    have hroom : paddedFrameLenBytes + payload.length ≤ wirePacketSize := by
      simp only [wirePacketSize, paddedFrameLenBytes] at hfits ⊢
      omega
    have hfield : ((pad.write 0 (bigEndian 2 payload.length)).write paddedFrameLenBytes
        (Bytes.ofList payload) hroom).read 0 2 = bigEndian 2 payload.length := by
      rw [Bytes.read_write_before hroom (by decide) (le_refl _), Bytes.read_write_same]
    have hpayload := Bytes.read_write_same (pad.write 0 (bigEndian 2 payload.length))
      paddedFrameLenBytes (Bytes.ofList payload) hroom
    simp only [netRecvPaddedFrame, hfield]
    rw [value_bigEndian (by simp only [wirePacketSize, paddedFrameLenBytes] at hroom; omega),
      if_neg (by omega)]
    exact congrArg (fun b => some b.toList) hpayload

end AnonSecNet
