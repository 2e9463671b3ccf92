import AnonSecNet.Packet.Return

/-! `send_response_ex` of `service_gateway.c`: the end-to-end encryption of a response and
the three layers of blinding under it. -/
namespace AnonSecNet.Gateway
open Octets
variable (P : Primitives)

/-- `[enc_len(2)][GCM ciphertext][zero padding]`. -/
def returnPayload (enc : { c : List UInt8 // c.length ≤ returnPayloadSize - 2 }) :
    Bytes returnPayloadSize :=
  ((Bytes.zero returnPayloadSize).write 0 (bigEndian 2 enc.1.length)).write 2
    (Bytes.ofList enc.1) (by have := enc.2; simp at this ⊢; omega)

/-- Step 5.4: the layer of the first relay is applied last. -/
def preBlind (recvBlind : Fin nPathHops → AesKey) (hops : List (Fin nPathHops))
    (payload : Bytes returnPayloadSize) : Bytes returnPayloadSize :=
  hops.foldr (fun hop acc => packetAesCtrXor P (recvBlind hop) acc) payload

/-- The packet for MNc. `gcmNonce` is what `crypto_aes_encrypt` draws. -/
def sendResponseEx (recvBlind : Fin nPathHops → AesKey) (e2eKey : AesKey)
    (useHdr : ReturnHeader) (flags : UInt8) (resp : List UInt8) (gcmNonce : Bytes gcmNonceLen) :
    Option WirePacket :=
  if returnPayloadSize - 2 - gcmOverhead - 1 < resp.length then none
  else
    (cryptoAesEncrypt P e2eKey gcmNonce (flags :: resp) (returnPayloadSize - 2)).map fun enc =>
      useHdr ++ preBlind P recvBlind (List.finRange nPathHops) (returnPayload enc)

/-- The packet of a response that fits. -/
theorem sendResponseEx_of_fits (recvBlind : Fin nPathHops → AesKey) (e2eKey : AesKey)
    (useHdr : ReturnHeader) (flags : UInt8) (resp : List UInt8) (gcmNonce : Bytes gcmNonceLen)
    (hresp : resp.length ≤ returnPayloadSize - 2 - gcmOverhead - 1) :
    ∃ enc, cryptoAesEncrypt P e2eKey gcmNonce (flags :: resp) (returnPayloadSize - 2) = some enc ∧
      enc.1.length = resp.length + 1 + gcmOverhead ∧
      sendResponseEx P recvBlind e2eKey useHdr flags resp gcmNonce
        = some (useHdr ++ preBlind P recvBlind (List.finRange nPathHops) (returnPayload enc)) := by
  obtain ⟨enc, henc, hlen⟩ := cryptoAesEncrypt_of_fits P e2eKey gcmNonce (flags :: resp)
    (returnPayloadSize - 2) (by simp at hresp ⊢; omega)
  refine ⟨enc, henc, by simpa using hlen, ?_⟩
  unfold sendResponseEx
  rw [if_neg (by omega), henc]
  rfl

theorem read_returnPayload_len (enc : { c : List UInt8 // c.length ≤ returnPayloadSize - 2 }) :
    ((returnPayload enc).read 0 2).value = enc.1.length := by
  have hbound := enc.2
  unfold returnPayload
  rw [Bytes.read_write_before _ _ (by simp), Bytes.read_write_same, value_bigEndian]
  norm_num
  simp at hbound
  omega

theorem returnPayload_cipher (enc : { c : List UInt8 // c.length ≤ returnPayloadSize - 2 }) :
    ((returnPayload enc).toList.drop 2).take enc.1.length = enc.1 := by
  have hbound := enc.2
  unfold returnPayload
  rw [← Bytes.toList_read _ _ _ (by simp at hbound ⊢; omega), Bytes.read_write_same]
  rfl

end AnonSecNet.Gateway
