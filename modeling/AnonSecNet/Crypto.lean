import AnonSecNet.Config

/-! `crypto.c` and the derivations of `packet.c`, over the cryptographic
primitives as parameters. -/
namespace AnonSecNet
open Octets

/-- OpenSSL, with what the code relies on: AES-CTR is XOR with a keystream that
key and IV determine, GCM decryption inverts GCM encryption and keeps lengths,
and the hashes are functions. -/
structure Primitives where
  ctrStream : AesKey → Bytes 16 → Nat → UInt8
  gcmSeal : AesKey → Bytes gcmNonceLen → List UInt8 → List UInt8 × Bytes gcmTagLen
  gcmOpen : AesKey → Bytes gcmNonceLen → List UInt8 → Bytes gcmTagLen → Option (List UInt8)
  sha256 : List UInt8 → Bytes 32
  hmacSha256 : List UInt8 → List UInt8 → Bytes 32
  hkdfExpand : AesKey → List UInt8 → AesKey
  length_gcmSeal : ∀ k n m, (gcmSeal k n m).1.length = m.length
  gcmOpen_gcmSeal : ∀ k n m, gcmOpen k n (gcmSeal k n m).1 (gcmSeal k n m).2 = some m
  length_gcmOpen : ∀ k n c t m, gcmOpen k n c t = some m → m.length = c.length

attribute [simp] Primitives.length_gcmSeal

/-- A small instance on which the model can be evaluated. -/
def Primitives.sample : Primitives where
  ctrStream key iv _ := key.byte 0 ^^^ iv.byte 0
  gcmSeal key _ m := (m, key.read 0 16)
  gcmOpen key _ c tag := if tag = key.read 0 16 then some c else none
  sha256 m := Bytes.fit 32 m
  hmacSha256 key m := Bytes.fit 8 m ++ Bytes.fit 24 key
  hkdfExpand master info := Bytes.fit 16 (info.drop 5) ++ Bytes.fit 16 master.toList
  length_gcmSeal _ _ _ := rfl
  gcmOpen_gcmSeal _ _ _ := if_pos rfl
  length_gcmOpen _ _ _ _ _ h := by
    split at h
    · rw [Option.some.inj h]
    · cases h

variable (P : Primitives)

/-! AES-256-GCM: nonce, ciphertext and tag in one buffer. -/

def cryptoAesEncrypt (key : AesKey) (nonce : Bytes gcmNonceLen) (plaintext : List UInt8)
    (outSize : Nat) : Option { c : List UInt8 // c.length ≤ outSize } :=
  if h : outSize < plaintext.length + gcmOverhead then none
  else
    some ⟨nonce.toList ++ (P.gcmSeal key nonce plaintext).1
      ++ (P.gcmSeal key nonce plaintext).2.toList, by simp at h ⊢; omega⟩

def cryptoAesDecrypt (key : AesKey) (inp : List UInt8) (outSize : Nat) : Option (List UInt8) :=
  if h : inp.length < gcmOverhead then none
  else if outSize < inp.length - gcmOverhead then none
  else
    P.gcmOpen key
      ((Bytes.ofList inp).read 0 gcmNonceLen (by simp at h ⊢; omega))
      ((inp.drop gcmNonceLen).take (inp.length - gcmOverhead))
      ((Bytes.ofList inp).read (inp.length - gcmTagLen) gcmTagLen (by simp at h ⊢; omega))

theorem cryptoAesEncrypt_eq_some {key : AesKey} {nonce : Bytes gcmNonceLen} {m : List UInt8}
    {outSize : Nat} {c : { c : List UInt8 // c.length ≤ outSize }}
    (h : cryptoAesEncrypt P key nonce m outSize = some c) :
    c.1 = nonce.toList ++ (P.gcmSeal key nonce m).1 ++ (P.gcmSeal key nonce m).2.toList := by
  unfold cryptoAesEncrypt at h
  split at h
  · cases h
  · exact congrArg Subtype.val (Option.some.inj h).symm

theorem cryptoAesEncrypt_of_fits (key : AesKey) (nonce : Bytes gcmNonceLen) (m : List UInt8)
    (outSize : Nat) (h : m.length + gcmOverhead ≤ outSize) :
    ∃ c, cryptoAesEncrypt P key nonce m outSize = some c ∧
      c.1.length = m.length + gcmOverhead := by
  unfold cryptoAesEncrypt
  rw [dif_neg (by omega)]
  exact ⟨_, rfl, by simp; omega⟩

theorem length_cryptoAesEncrypt {key : AesKey} {nonce : Bytes gcmNonceLen} {m : List UInt8}
    {outSize : Nat} {c : { c : List UInt8 // c.length ≤ outSize }}
    (h : cryptoAesEncrypt P key nonce m outSize = some c) :
    c.1.length = m.length + gcmOverhead := by
  rw [cryptoAesEncrypt_eq_some P h]
  simp
  omega

/-- What another key makes of a ciphertext, with a buffer that is large enough. -/
theorem cryptoAesDecrypt_sealed {key : AesKey} {nonce : Bytes gcmNonceLen} {m : List UInt8}
    {outSize outSize' : Nat} {c : { c : List UInt8 // c.length ≤ outSize }}
    (h : cryptoAesEncrypt P key nonce m outSize = some c) (hout : m.length ≤ outSize')
    (other : AesKey) :
    cryptoAesDecrypt P other c.1 outSize'
      = P.gcmOpen other nonce (P.gcmSeal key nonce m).1 (P.gcmSeal key nonce m).2 := by
  have hlen : c.1.length = m.length + 28 := length_cryptoAesEncrypt P h
  have hc := cryptoAesEncrypt_eq_some P h
  unfold cryptoAesDecrypt
  rw [dif_neg (by simp; omega), if_neg (by simp; omega)]
  have hnonce : (Bytes.ofList c.1).read 0 gcmNonceLen (by simp; omega) = nonce := by
    ext1
    simp [hc]
  have hct : (c.1.drop gcmNonceLen).take (c.1.length - gcmOverhead)
      = (P.gcmSeal key nonce m).1 := by
    rw [hlen, hc, List.append_assoc, List.drop_left' (by simp), List.take_left' (by simp)]
  have htag : (Bytes.ofList c.1).read (c.1.length - gcmTagLen) gcmTagLen (by simp; omega)
      = (P.gcmSeal key nonce m).2 := by
    ext1
    rw [Bytes.toList_read, Bytes.toList_ofList, hlen, hc,
      List.drop_left' (by simp; omega), List.take_of_length_le (by simp)]
  rw [hnonce, hct, htag]

/-- Decryption with a buffer that is large enough inverts encryption. -/
theorem cryptoAesDecrypt_encrypt {key : AesKey} {nonce : Bytes gcmNonceLen} {m : List UInt8}
    {outSize outSize' : Nat} {c : { c : List UInt8 // c.length ≤ outSize }}
    (h : cryptoAesEncrypt P key nonce m outSize = some c) (hout : m.length ≤ outSize') :
    cryptoAesDecrypt P key c.1 outSize' = some m :=
  (cryptoAesDecrypt_sealed P h hout key).trans (P.gcmOpen_gcmSeal key nonce m)

theorem length_cryptoAesDecrypt {key : AesKey} {inp m : List UInt8} {outSize : Nat}
    (h : cryptoAesDecrypt P key inp outSize = some m) : m.length + gcmOverhead = inp.length := by
  unfold cryptoAesDecrypt at h
  split at h
  · cases h
  · split at h
    · cases h
    · rename_i hlong hfits
      rw [P.length_gcmOpen _ _ _ _ _ h, List.length_take, List.length_drop]
      simp at hlong hfits ⊢
      omega

/-- What is decrypted fits into the buffer it is written to. -/
theorem length_cryptoAesDecrypt_le {key : AesKey} {inp m : List UInt8} {outSize : Nat}
    (h : cryptoAesDecrypt P key inp outSize = some m) : m.length ≤ outSize := by
  unfold cryptoAesDecrypt at h
  split at h
  · cases h
  · split at h
    · cases h
    · rename_i hfits
      rw [P.length_gcmOpen _ _ _ _ _ h, List.length_take, List.length_drop]
      omega

/-! AES-CTR and HMAC as `packet.c` calls them. -/

/-- `packet_aes_ctr_xor_iv`. Every caller passes a buffer whose declared size fits
the stack buffer the length check protects, so that exit is a proof here. -/
def packetAesCtrXorIv {n : Nat} (key : AesKey) (iv : Bytes 16) (inp : Bytes n)
    (_fits : n ≤ wirePacketSize := by decide) : Bytes n :=
  inp.xor (P.ctrStream key iv)

/-- `packet_aes_ctr_xor`: the same with a zero IV. -/
def packetAesCtrXor {n : Nat} (key : AesKey) (inp : Bytes n)
    (fits : n ≤ wirePacketSize := by decide) : Bytes n :=
  packetAesCtrXorIv P key (Bytes.zero 16) inp fits

@[simp] theorem packetAesCtrXorIv_twice {n : Nat} (key : AesKey) (iv : Bytes 16) (inp : Bytes n)
    (h h' : n ≤ wirePacketSize) :
    packetAesCtrXorIv P key iv (packetAesCtrXorIv P key iv inp h) h' = inp :=
  Bytes.xor_xor _ inp

@[simp] theorem packetAesCtrXor_twice {n : Nat} (key : AesKey) (inp : Bytes n)
    (h h' : n ≤ wirePacketSize) :
    packetAesCtrXor P key (packetAesCtrXor P key inp h) h' = inp :=
  packetAesCtrXorIv_twice P key _ inp h h'

def deriveCtrIv (nonce : List UInt8) : Bytes 16 := (P.sha256 nonce).read 0 16

def deriveHeaderIv (encNonce : Bytes nonceBytes) : Bytes 16 := deriveCtrIv P encNonce.toList

def packetHmac (key : List UInt8) (data : List UInt8) : Mac :=
  (P.hmacSha256 key data).read 0 macBytes

def packetDeriveSgHint (master : AesKey) : Bytes sgHintBytes :=
  packetHmac P master.toList labelSgHint

def packetDeriveHintSeed (master : AesKey) : AesKey := P.hmacSha256 master.toList labelHintSeed

/-- `HMAC(hint_seed, pkt_counter)` with the counter as eight big-endian bytes. -/
def packetDeriveHopHint (hintSeed : AesKey) (pktCounter : Nat) : Hint :=
  P.hmacSha256 hintSeed.toList (bigEndian 8 pktCounter).toList

/-- Counters are 64-bit. -/
theorem packetDeriveHopHint_mod (hintSeed : AesKey) (c : Nat) :
    packetDeriveHopHint P hintSeed (c % 2 ^ 64) = packetDeriveHopHint P hintSeed c :=
  congrArg (fun b : Bytes 8 => P.hmacSha256 hintSeed.toList b.toList) (bigEndian_mod 8 c)

def packetDeriveBindingTag (aKey bKey : AesKey) : Mac :=
  packetHmac P (P.hmacSha256 aKey.toList bKey.toList).toList labelBinding

/-- Header encryption key, header MAC key and blinding key, in that order. -/
def packetDeriveHopKeys (master : AesKey) : AesKey × AesKey × AesKey :=
  (P.hkdfExpand master labelHeaderEnc, P.hkdfExpand master labelHeaderMac,
    P.hkdfExpand master labelBlindKey)

end AnonSecNet
