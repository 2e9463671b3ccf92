import AnonSecNet.Gateway.Response

/-! The receiving end of `client.c`: the filter of the response listener and what
`wait_response` makes of the packet in the mailbox. -/
namespace AnonSecNet.Client
open Octets
variable (P : Primitives)

/-- `enc_len`, right behind the return header. -/
def encLen (wire : WirePacket) : Nat := (wire.read returnHeaderSize 2).value

/-- The ciphertext the listener and `wait_response` hand to `crypto_aes_decrypt`. -/
def encResp (wire : WirePacket) : List UInt8 :=
  (wire.toList.drop (returnHeaderSize + 2)).take (encLen wire)

/-- Whether `response_listener` puts the packet into the mailbox. -/
def listenerAccepts (kRSgB : AesKey) (wire : WirePacket) : Bool :=
  decide (gcmOverhead ≤ encLen wire ∧ encLen wire ≤ 512) &&
    match cryptoAesDecrypt P kRSgB (encResp wire) returnPayloadSize with
    | some (flags :: _) => flags == pktReal
    | _ => false

/-- The part of `wait_response` behind the wait. -/
def waitResponse (kRSgB : AesKey) (wire : WirePacket) : Option (List UInt8) :=
  if encLen wire < gcmOverhead ∨ returnPayloadSize - 2 < encLen wire then none
  else
    match cryptoAesDecrypt P kRSgB (encResp wire) returnPayloadSize with
    | some (_ :: plain) => some (plain.take maxInnerPayload)
    | _ => none

/-! The packet that has left the last relay. -/

section
variable {wire : WirePacket} {enc : { c : List UInt8 // c.length ≤ returnPayloadSize - 2 }}

theorem encLen_of_payload
    (h : wire.read returnHeaderSize returnPayloadSize = Gateway.returnPayload enc) :
    encLen wire = enc.1.length := by
  have hlen := Bytes.read_within h 0 2 (by decide)
  rw [encLen, ← Gateway.read_returnPayload_len enc]
  exact congrArg Bytes.value hlen

theorem encResp_of_payload
    (h : wire.read returnHeaderSize returnPayloadSize = Gateway.returnPayload enc) :
    encResp wire = enc.1 := by
  have hsection := congrArg Bytes.toList h
  rw [Bytes.toList_read, List.take_of_length_le (by simp)] at hsection
  rw [encResp, encLen_of_payload h, ← List.drop_drop, hsection,
    Gateway.returnPayload_cipher]

end

/-- Both ends of the mailbox decrypt the packet of a response to its flags and bytes. -/
theorem decrypt_of_payload {wire : WirePacket} {key : AesKey} {gcmNonce : Bytes gcmNonceLen}
    {flags : UInt8} {resp : List UInt8}
    {enc : { c : List UInt8 // c.length ≤ returnPayloadSize - 2 }}
    (hresp : resp.length ≤ maxInnerPayload)
    (henc : cryptoAesEncrypt P key gcmNonce (flags :: resp) (returnPayloadSize - 2) = some enc)
    (h : wire.read returnHeaderSize returnPayloadSize = Gateway.returnPayload enc) :
    encLen wire = resp.length + 1 + gcmOverhead ∧
      cryptoAesDecrypt P key (encResp wire) returnPayloadSize = some (flags :: resp) := by
  rw [encLen_of_payload h, encResp_of_payload h]
  exact ⟨length_cryptoAesEncrypt P henc,
    cryptoAesDecrypt_encrypt P henc (by simp at hresp ⊢; omega)⟩

theorem listener_accepts_real {wire : WirePacket} {key : AesKey} {gcmNonce : Bytes gcmNonceLen}
    {resp : List UInt8} {enc : { c : List UInt8 // c.length ≤ returnPayloadSize - 2 }}
    (hresp : resp.length ≤ maxInnerPayload)
    (henc : cryptoAesEncrypt P key gcmNonce (pktReal :: resp) (returnPayloadSize - 2) = some enc)
    (h : wire.read returnHeaderSize returnPayloadSize = Gateway.returnPayload enc) :
    listenerAccepts P key wire = true := by
  obtain ⟨hlen, hplain⟩ := decrypt_of_payload P hresp henc h
  unfold listenerAccepts
  rw [hlen, hplain]
  simp at hresp ⊢
  omega

/-- The listener keeps a real response of at most `MAX_INNER_PAYLOAD` bytes and
`wait_response` returns exactly its bytes. -/
theorem receives_real {wire : WirePacket} {key : AesKey} {gcmNonce : Bytes gcmNonceLen}
    {resp : List UInt8} {enc : { c : List UInt8 // c.length ≤ returnPayloadSize - 2 }}
    (hresp : resp.length ≤ maxInnerPayload)
    (henc : cryptoAesEncrypt P key gcmNonce (pktReal :: resp) (returnPayloadSize - 2) = some enc)
    (h : wire.read returnHeaderSize returnPayloadSize = Gateway.returnPayload enc) :
    listenerAccepts P key wire = true ∧ waitResponse P key wire = some resp := by
  obtain ⟨hlen, hplain⟩ := decrypt_of_payload P hresp henc h
  refine ⟨listener_accepts_real P hresp henc h, ?_⟩
  unfold waitResponse
  rw [hlen, hplain, if_neg (by simp at hresp ⊢; omega)]
  simp [List.take_of_length_le hresp]

end AnonSecNet.Client
