import AnonSecNet.Client.Receive

/-! The receiving end of `sender.c`: a listener as in `client.c`, and a wait that only takes
the response that echoes the nonce of the request. -/
namespace AnonSecNet.Sender
open Octets
variable (P : Primitives)

def listenerAccepts (kSSgB : AesKey) (wire : WirePacket) : Bool :=
  Client.listenerAccepts P kSSgB wire

/-- One round of the loop of `sender_wait_response`; `none` is a packet it discards. -/
def senderWaitResponse (kSSgB : AesKey) (pendingNonce : Bytes slotNonceBytes)
    (wire : WirePacket) : Option (List UInt8) :=
  if Client.encLen wire < gcmOverhead ∨ returnPayloadSize - 2 < Client.encLen wire then none
  else
    match cryptoAesDecrypt P kSSgB (Client.encResp wire) returnPayloadSize with
    | some plain =>
      if plain.length < 1 + slotNonceBytes then none
      else if (plain.drop 1).take slotNonceBytes ≠ pendingNonce.toList then none
      else some ((plain.drop (1 + slotNonceBytes)).take maxInnerPayload)
    | none => none

/-- What the wait makes of a packet that decrypts to the nonce and at most `MAX_INNER_PAYLOAD`
bytes in all. -/
theorem senderWaitResponse_of_plain {wire : WirePacket} {key : AesKey}
    {pendingNonce : Bytes slotNonceBytes} {body : List UInt8}
    (hlen : gcmOverhead ≤ Client.encLen wire ∧ Client.encLen wire ≤ 512)
    (hbody : (pendingNonce.toList ++ body).length ≤ maxInnerPayload)
    (hplain : cryptoAesDecrypt P key (Client.encResp wire) returnPayloadSize =
      some (pktReal :: (pendingNonce.toList ++ body))) :
    senderWaitResponse P key pendingNonce wire = some body := by
  have hnonce : ((pktReal :: (pendingNonce.toList ++ body)).drop 1).take slotNonceBytes
      = pendingNonce.toList := List.take_left' (by simp)
  have hrest : (pktReal :: pendingNonce.toList ++ body).drop (1 + slotNonceBytes) = body :=
    List.drop_left' (by simp)
  simp only [List.length_append, Bytes.length_eq] at hbody
  rw [List.cons_append] at hrest
  unfold senderWaitResponse
  rw [hplain, if_neg (by simp at hlen ⊢; omega)]
  dsimp only
  rw [if_neg (by simp), hnonce, if_neg (by simp), hrest, List.take_of_length_le (by omega)]

/-- A response of at most `MAX_INNER_PAYLOAD` bytes with the nonce in front is accepted, and
the wait returns the bytes behind the nonce. -/
theorem receives_echoed {wire : WirePacket} {key : AesKey} {gcmNonce : Bytes gcmNonceLen}
    {pendingNonce : Bytes slotNonceBytes} {body : List UInt8}
    {enc : { c : List UInt8 // c.length ≤ returnPayloadSize - 2 }}
    (hbody : (pendingNonce.toList ++ body).length ≤ maxInnerPayload)
    (henc : cryptoAesEncrypt P key gcmNonce (pktReal :: (pendingNonce.toList ++ body))
      (returnPayloadSize - 2) = some enc)
    (h : wire.read returnHeaderSize returnPayloadSize = Gateway.returnPayload enc) :
    listenerAccepts P key wire = true ∧
      senderWaitResponse P key pendingNonce wire = some body := by
  obtain ⟨hlen, hplain⟩ := Client.decrypt_of_payload P hbody henc h
  refine ⟨Client.listener_accepts_real P hbody henc h,
    senderWaitResponse_of_plain P ?_ hbody hplain⟩
  simp at hbody hlen ⊢
  omega

end AnonSecNet.Sender
