import AnonSecNet.Crypto

/-! The key agreement and the signatures of `crypto.c`. -/
namespace AnonSecNet
open Octets

abbrev PubKey : Type := Bytes ecPubkeyLen

/-- P-256 and HKDF-SHA256 of OpenSSL: two key pairs agree on one shared secret, and bytes that
are no point of the curve are refused. -/
structure KeyExchange where
  Secret : Type
  pubkey : Secret → PubKey
  shared : Secret → PubKey → Option (Bytes 32)
  hkdf : Bytes 32 → List UInt8 → AesKey
  shared_comm : ∀ a b, shared a (pubkey b) = shared b (pubkey a)
  shared_isSome : ∀ a b, (shared a (pubkey b)).isSome

def labelKeyExchange : List UInt8 := labelBytes "anon-sec-net-v1"

/-- The fields have fixed widths. -/
def boundInfo (clientPub nodePub : PubKey) (port : UInt16) (role : UInt8) : List UInt8 :=
  labelKeyExchange ++ clientPub.toList ++ nodePub.toList
    ++ [UInt8.ofNat (port.toNat / 256), UInt8.ofNat port.toNat, role]

section
variable (K : KeyExchange)

def cryptoEcdhDerive (localKp : K.Secret) (remotePubkey : PubKey) : Option AesKey :=
  (K.shared localKp remotePubkey).map fun shared => K.hkdf shared labelKeyExchange

def cryptoEcdhDeriveBound (localKp : K.Secret) (remotePubkey clientPub nodePub : PubKey)
    (port : UInt16) (role : UInt8) : Option AesKey :=
  (K.shared localKp remotePubkey).map fun shared =>
    K.hkdf shared (boundInfo clientPub nodePub port role)

end

/-- A small instance: key pairs are bytes, and the key lists what it was derived from. -/
def KeyExchange.sample : KeyExchange where
  Secret := UInt8
  pubkey a := Bytes.fit ecPubkeyLen [4, a]
  shared a pub := if pub.byte 0 = 4 then some (Bytes.fit 32 [a * pub.byte 1]) else none
  hkdf shared info :=
    Bytes.fit aesKeyLen (info.getD 16 0 :: info.getD 81 0 :: info.drop 145 ++ shared.toList)
  shared_comm a b := by
    have h : (Bytes.fit ecPubkeyLen [4, a]).byte 0 = (Bytes.fit ecPubkeyLen [4, b]).byte 0 := rfl
    have ha : (Bytes.fit ecPubkeyLen [4, a]).byte 1 = a := rfl
    have hb : (Bytes.fit ecPubkeyLen [4, b]).byte 1 = b := rfl
    rw [h, ha, hb, UInt8.mul_comm]
  shared_isSome a b := rfl

end AnonSecNet
