import AnonSecNet.Packet.Forward

/-! The return header of `packet.c`: built by the client, one block peeled by each
relay of the receiving path. -/
namespace AnonSecNet
open Octets
variable (P : Primitives)

/-- `return_header_t`, as it lies on the wire. -/
abbrev ReturnHeader : Type := Bytes returnHeaderSize

/-- `return_next_t`. -/
structure ReturnNext where
  nextIp : Bytes 4
  nextPort : UInt16
  nonce : Bytes returnNonceBytes
deriving DecidableEq

def returnEncNonce (encKey : AesKey) (nonce : Bytes returnNonceBytes) : Bytes returnNonceBytes :=
  packetAesCtrXor P encKey nonce

def returnIv (encKey : AesKey) (nonce : Bytes returnNonceBytes) : Bytes 16 :=
  deriveCtrIv P (returnEncNonce P encKey nonce).toList

/-- One block: `enc_addr || enc_nonce || mac || hint`, the MAC over the first two. -/
def returnBlock (encKey macKey : AesKey) (hint : Hint) (addr : Addr)
    (nonce : Bytes returnNonceBytes) : Bytes returnBlockSize :=
  let encAddr := packetAesCtrXorIv P encKey (returnIv P encKey nonce) addr
  let covered := encAddr ++ returnEncNonce P encKey nonce
  covered ++ packetHmac P macKey.toList covered.toList ++ hint

def packetBuildReturnHeader (hopEncKeys hopMacKeys : Fin nPathHops → AesKey)
    (hopHints : Fin nPathHops → Hint) (addrs : Fin nPathHops → Addr)
    (nonces : Fin nPathHops → Bytes returnNonceBytes) : ReturnHeader :=
  let block i := returnBlock P (hopEncKeys i) (hopMacKeys i) (hopHints i) (addrs i) (nonces i)
  block 0 ++ block 1 ++ block 2

def addrIp (addr : Addr) : Bytes 4 := addr.read 0 4

def addrPort (addr : Addr) : UInt16 := UInt16.ofNat (addr.read 4 2).value

/-- `blocks[0].hint`. -/
def returnOuterHint (rhdr : ReturnHeader) : Hint := rhdr.read 26 hintBytes

/-- `packet_peel_return_header`. `pad` is the random filling of the shifted header. -/
def packetPeelReturnHeader (rhdr : ReturnHeader) (headerEncKey headerMacKey : AesKey)
    (pad : ReturnHeader) : Option (ReturnNext × ReturnHeader) :=
  if packetHmac P headerMacKey.toList (rhdr.read 0 10).toList ≠ rhdr.read 10 macBytes then none
  else
    let encNonce : Bytes returnNonceBytes := rhdr.read 6 returnNonceBytes
    let iv := deriveCtrIv P encNonce.toList
    let addr : Addr := packetAesCtrXorIv P headerEncKey iv (rhdr.read 0 addrBytes)
    let next : ReturnNext :=
      { nextIp := addrIp addr, nextPort := addrPort addr,
        nonce := packetAesCtrXor P headerEncKey encNonce }
    let remaining : Bytes (returnHeaderSize - returnBlockSize) :=
      rhdr.read returnBlockSize (returnHeaderSize - returnBlockSize)
    some (next, pad.write 0 remaining)

/-! A relay peels the block built for it. -/

variable (encKey macKey : AesKey) (hint : Hint) (addr : Addr) (nonce : Bytes returnNonceBytes)

theorem returnBlock_covered :
    (returnBlock P encKey macKey hint addr nonce).read 0 10
      = packetAesCtrXorIv P encKey (returnIv P encKey nonce) addr
          ++ returnEncNonce P encKey nonce := by
  unfold returnBlock
  rw [Bytes.read_append_left (h := by decide)]
  exact Bytes.read_append_fst _ _

theorem returnBlock_mac :
    (returnBlock P encKey macKey hint addr nonce).read 10 macBytes
      = packetHmac P macKey.toList
          ((returnBlock P encKey macKey hint addr nonce).read 0 10).toList := by
  rw [returnBlock_covered]
  unfold returnBlock
  rw [Bytes.read_append_left (h := by decide)]
  exact Bytes.read_append_snd _ _

theorem returnBlock_hint :
    (returnBlock P encKey macKey hint addr nonce).read 26 hintBytes = hint :=
  Bytes.read_append_snd _ _

theorem returnBlock_encAddr :
    (returnBlock P encKey macKey hint addr nonce).read 0 addrBytes
      = packetAesCtrXorIv P encKey (returnIv P encKey nonce) addr := by
  have h := Bytes.read_within (returnBlock_covered P encKey macKey hint addr nonce)
    0 addrBytes (by decide)
  exact h.trans (Bytes.read_append_fst _ _)

theorem returnBlock_encNonce :
    (returnBlock P encKey macKey hint addr nonce).read 6 returnNonceBytes
      = returnEncNonce P encKey nonce := by
  have h := Bytes.read_within (returnBlock_covered P encKey macKey hint addr nonce)
    6 returnNonceBytes (by decide)
  exact h.trans (Bytes.read_append_snd _ _)

def returnNextFor (addr : Addr) (nonce : Bytes returnNonceBytes) : ReturnNext :=
  { nextIp := addrIp addr, nextPort := addrPort addr, nonce := nonce }

theorem packetPeelReturnHeader_block (rhdr pad : ReturnHeader) (l : List UInt8)
    (hl : l.length ≤ returnHeaderSize - returnBlockSize)
    (hfront : (returnBlock P encKey macKey hint addr nonce).toList ++ l <+: rhdr.toList) :
    returnOuterHint rhdr = hint ∧
      ∃ out, packetPeelReturnHeader P rhdr encKey macKey pad = some (returnNextFor addr nonce, out) ∧
        l <+: out.toList := by
  have hblock := Bytes.read_of_leading hfront (by decide)
  have hfield := Bytes.read_within hblock
  have hcovered := hfield 0 10 (by decide)
  have hmac := hfield 10 macBytes (by decide)
  have hnonce := hfield 6 returnNonceBytes (by decide)
  have haddr := hfield 0 addrBytes (by decide)
  have hhint := hfield 26 hintBytes (by decide)
  simp only [Nat.zero_add] at hcovered hmac hnonce haddr hhint
  rw [returnBlock_encNonce] at hnonce
  rw [returnBlock_encAddr] at haddr
  rw [returnBlock_hint] at hhint
  have hplainAddr : packetAesCtrXorIv P encKey (returnIv P encKey nonce)
      (packetAesCtrXorIv P encKey (returnIv P encKey nonce) addr) = addr :=
    packetAesCtrXorIv_twice P _ _ _ (by decide) (by decide)
  have hplainNonce : packetAesCtrXor P encKey (returnEncNonce P encKey nonce) = nonce :=
    packetAesCtrXor_twice P _ _ (by decide) (by decide)
  refine ⟨hhint, ?_⟩
  unfold packetPeelReturnHeader
  rw [hcovered, hmac, ← returnBlock_mac, if_neg (by simp)]
  simp only [hnonce, haddr, hplainNonce]
  rw [← returnIv, hplainAddr]
  refine ⟨_, rfl, ?_⟩
  have hshift := Bytes.leading_of_read hfront (k := returnHeaderSize - returnBlockSize)
    (by decide) hl
  exact Bytes.leading_write hshift (by decide)

end AnonSecNet
