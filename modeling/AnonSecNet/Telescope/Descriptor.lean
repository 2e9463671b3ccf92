import AnonSecNet.MixNode.Extend
import AnonSecNet.Retrieval.Handshake

/-! The signed descriptor a node answers a request with, and `recv_signed_descriptor` of
`client.c`. -/
namespace AnonSecNet.Telescope
open Octets
open Sender (Signature signatureMaxLen)
open Retrieval (Verify)

/-- `[node_pub(65)][identity_pub(65)][sig_len(1)][sig]`. -/
def descriptorBytes (nodePub identityPub : PubKey) (sig : Signature) : List UInt8 :=
  nodePub.toList ++ identityPub.toList ++ UInt8.ofNat sig.1.length :: sig.1

def descriptorMaxLen : Nat := ecPubkeyLen + ecPubkeyLen + 1 + signatureMaxLen

/-- `crypto_pubkey_pin_check`: port and identity key. -/
abbrev PinCheck : Type := UInt16 → PubKey → Bool

/-- The ephemeral key of the node. -/
def recvSignedDescriptor (verify : Verify) (pinned : PinCheck) (port : UInt16)
    (frame : WirePacket) : Option PubKey :=
  (netRecvPaddedFrame frame descriptorMaxLen).bind fun reply =>
    match reply.drop (ecPubkeyLen + ecPubkeyLen) with
    | [] => none
    | sigLen :: rest =>
      if sigLen = 0 ∨ signatureMaxLen < sigLen.toNat ∨ rest.length < sigLen.toNat then none
      else
        let nodePub : PubKey := Bytes.fit ecPubkeyLen reply
        let identityPub : PubKey := Bytes.fit ecPubkeyLen (reply.drop ecPubkeyLen)
        if verify identityPub nodePub.toList (rest.take sigLen.toNat) ∧ pinned port identityPub
        then some nodePub else none

/-- Whatever the client makes of an honest descriptor, the key is the node's. -/
theorem recvSignedDescriptor_sent {verify : Verify} {pinned : PinCheck} {port : UInt16}
    {nodePub identityPub got : PubKey} {sig : Signature} {pad frame : WirePacket}
    (hsent : netSendPaddedFrame (descriptorBytes nodePub identityPub sig) pad = some frame)
    (h : recvSignedDescriptor verify pinned port frame = some got) : got = nodePub := by
  have hlen : (descriptorBytes nodePub identityPub sig).length ≤ descriptorMaxLen := by
    have hsig := sig.2.2
    simp [descriptorBytes, descriptorMaxLen] at hsig ⊢
    omega
  unfold recvSignedDescriptor at h
  rw [netRecvPaddedFrame_sent hsent hlen, Option.bind_some] at h
  have hfit : Bytes.fit ecPubkeyLen (descriptorBytes nodePub identityPub sig) = nodePub := by
    unfold descriptorBytes
    rw [List.append_assoc, Bytes.fit_append]
  dsimp only at h
  rw [hfit] at h
  split at h
  · cases h
  · split at h
    · cases h
    · split at h
      · exact (Option.some.inj h).symm
      · cases h

end AnonSecNet.Telescope
