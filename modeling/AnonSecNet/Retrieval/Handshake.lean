import AnonSecNet.Retrieval.Respond

/-! What `client.c` makes of the answers of a retrieval: the content key in the answer of the
sender, the content in the answer to GET, and the pinned identity both are checked against. -/
namespace AnonSecNet.Retrieval
open Octets
open Sender hiding step
variable (K : KeyExchange) (P : Primitives)

/-- `crypto_verify`: identity key, message and signature. -/
abbrev Verify : Type := PubKey → List UInt8 → List UInt8 → Bool

/-- Letters, digits, `-` and `_` stay; everything else becomes `_`. -/
def safeChar (c : UInt8) : UInt8 :=
  if (48 ≤ c ∧ c ≤ 57) ∨ (65 ≤ c ∧ c ≤ 90) ∨ (97 ≤ c ∧ c ≤ 122) ∨ c = 45 ∨ c = 95 then c else 95

/-- The part of `sender_pin_path` that depends on the key. -/
def senderPinPath (key : CString) : List UInt8 := (key.1.take 127).map safeChar

/-- The pin files that can be loaded. -/
abbrev Pins : Type := List UInt8 → Option PubKey

def loadExistingSenderPin (pins : Pins) (key : CString) : Option PubKey := pins (senderPinPath key)

/-- `saves` is whether a new pin file can be written. -/
def pinSenderKey (pins : Pins) (key : CString) (pub : PubKey) (saves : Bool) : Option Pins :=
  match loadExistingSenderPin pins key with
  | some existing => if existing = pub then some pins else none
  | none => if saves then some (Function.update pins (senderPinPath key) (some pub)) else none

/-- The verified content, and the pins after the call. -/
def verifySignedContent (verify : Verify) (pins : Pins) (saves : Bool) (key : CString)
    (raw : List UInt8) (kContent : AesKey) : Option (List UInt8) × Pins :=
  match raw.drop ecPubkeyLen with
  | [] => (none, pins)
  | sigLen :: rest =>
    if sigLen = 0 ∨ signatureMaxLen < sigLen.toNat ∨ rest.length < sigLen.toNat then (none, pins)
    else
      let senderPub : PubKey := Bytes.fit ecPubkeyLen raw
      match pinSenderKey pins key senderPub saves with
      | none => (none, pins)
      | some pins =>
        match cryptoAesDecrypt P kContent (rest.drop sigLen.toNat) maxInnerPayload with
        | none => (none, pins)
        | some plain =>
          if verify senderPub plain (rest.take sigLen.toNat) then (some plain, pins)
          else (none, pins)

/-- The signature is only checked against a pin that is there already. -/
def refutesPin (verify : Verify) (pins : Pins) (key : CString) (signed sig : List UInt8) : Bool :=
  match loadExistingSenderPin pins key with
  | some existing => !verify existing signed sig
  | none => false

/-- The content key in a POLL reply, `body` being what is behind its status byte:
`[s_pub(65)][enc_len(2)][enc_k_content][sig_len(1)][sig]`. -/
def openAnswer (verify : Verify) (pins : Pins) (key : CString) (eph : K.Secret)
    (body : List UInt8) : Option AesKey :=
  if body.length < ecPubkeyLen + 2 then none
  else
    let sPub : PubKey := Bytes.fit ecPubkeyLen body
    let encLen := valueList ((body.drop ecPubkeyLen).take 2)
    if body.length < ecPubkeyLen + 2 + encLen then none
    else
      let enc := (body.drop (ecPubkeyLen + 2)).take encLen
      match body.drop (ecPubkeyLen + 2 + encLen) with
      | [] => none
      | sigLen :: rest =>
        if sigLen = 0 ∨ signatureMaxLen < sigLen.toNat ∨ rest.length < sigLen.toNat then none
        else if refutesPin verify pins key (body.take (ecPubkeyLen + 2 + encLen))
          (rest.take sigLen.toNat) then none
        else
          (cryptoEcdhDerive K eph sPub).bind fun kSession =>
            (cryptoAesDecrypt P kSession enc (aesKeyLen + gcmOverhead)).bind fun kContent =>
              if kContent.length = aesKeyLen then some (Bytes.fit aesKeyLen kContent) else none

/-! The layouts that the sender writes. -/

/-- No other identity is pinned for the key. -/
def NoConflict (pins : Pins) (key : CString) (identityPub : PubKey) : Prop :=
  ∀ existing, loadExistingSenderPin pins key = some existing → existing = identityPub

theorem sigLen_reads (sig : Signature) (l : List UInt8) :
    (UInt8.ofNat sig.1.length).toNat = sig.1.length ∧
      ¬ (UInt8.ofNat sig.1.length = 0 ∨ signatureMaxLen < sig.1.length ∨
        (sig.1 ++ l).length < sig.1.length) := by
  have hsig := sig.2
  have hlen : (UInt8.ofNat sig.1.length).toNat = sig.1.length := by
    simp at hsig ⊢
    omega
  refine ⟨hlen, ?_⟩
  rintro (h | h | h)
  · have h0 : sig.1.length = 0 := hlen.symm.trans (congrArg UInt8.toNat h)
    omega
  · omega
  · simp at h

theorem pinSenderKey_of_noConflict {pins : Pins} {key : CString} {identityPub : PubKey}
    (h : NoConflict pins key identityPub) : (pinSenderKey pins key identityPub true).isSome := by
  unfold pinSenderKey
  cases hload : loadExistingSenderPin pins key with
  | none => rfl
  | some existing => simp [h existing hload]

/-- What `upload_content` wrote is opened and accepted. -/
theorem verifySignedContent_signedBlob {verify : Verify} {pins : Pins} {key : CString}
    {kContent : AesKey} {gcmNonce : Bytes gcmNonceLen} {content : List UInt8}
    {ct : { c : List UInt8 // c.length ≤ maxInnerPayload }}
    (hct : cryptoAesEncrypt P kContent gcmNonce content maxInnerPayload = some ct)
    {identityPub : PubKey} {sig : Signature} (hsig : verify identityPub content sig.1 = true)
    (hpins : NoConflict pins key identityPub) :
    (verifySignedContent P verify pins true key (signedBlob identityPub sig ct.1) kContent).1
      = some content := by
  obtain ⟨hlen, hread⟩ := sigLen_reads sig ct.1
  obtain ⟨pinned, hpinned⟩ := Option.isSome_iff_exists.mp (pinSenderKey_of_noConflict hpins)
  have hplain : cryptoAesDecrypt P kContent ct.1 maxInnerPayload = some content := by
    have hfits := length_cryptoAesEncrypt P hct
    have hroom := ct.2
    exact cryptoAesDecrypt_encrypt P hct (by omega)
  unfold verifySignedContent signedBlob
  rw [List.drop_left' identityPub.length_eq]
  simp only [hlen, Bytes.fit_append]
  rw [if_neg hread, hpinned]
  simp only [List.drop_left', List.take_left', hplain, hsig, ↓reduceIte]

/-- Where the parts of an answer lie. -/
theorem respondData_layout (sPub : PubKey) {enc : List UInt8} (henc : enc.length < 2 ^ 16)
    (sig : Signature) :
    Bytes.fit ecPubkeyLen (respondData sPub enc sig) = sPub ∧
      valueList (((respondData sPub enc sig).drop ecPubkeyLen).take 2) = enc.length ∧
      ((respondData sPub enc sig).drop (ecPubkeyLen + 2)).take enc.length = enc ∧
      (respondData sPub enc sig).take (ecPubkeyLen + 2 + enc.length) = respondSigned sPub enc ∧
      (respondData sPub enc sig).drop (ecPubkeyLen + 2 + enc.length)
        = UInt8.ofNat sig.1.length :: sig.1 := by
  have hsigned : (respondSigned sPub enc).length = ecPubkeyLen + 2 + enc.length := by
    simp [respondSigned]
    omega
  have hfields : respondData sPub enc sig = sPub.toList ++ ((bigEndian 2 enc.length).toList ++
      (enc ++ UInt8.ofNat sig.1.length :: sig.1)) := by
    simp [respondData, respondSigned]
  refine ⟨?_, ?_, ?_, List.take_left' hsigned, List.drop_left' hsigned⟩
  · rw [hfields, Bytes.fit_append]
  · rw [hfields, List.drop_left' sPub.length_eq, List.take_left' (Bytes.length_eq _)]
    exact value_bigEndian henc
  · rw [hfields, ← List.drop_drop, List.drop_left' sPub.length_eq,
      List.drop_left' (Bytes.length_eq _), List.take_left' rfl]

/-- What `respond_worker` wrote for the public key of `eph` gives the content key back. -/
theorem openAnswer_respondData {verify : Verify} {pins : Pins} {key : CString} {eph ephS : K.Secret}
    {kSession kContent : AesKey} {gcmNonce : Bytes gcmNonceLen}
    {enc : { c : List UInt8 // c.length ≤ aesKeyLen + gcmOverhead }}
    (hsession : cryptoEcdhDerive K ephS (K.pubkey eph) = some kSession)
    (henc : cryptoAesEncrypt P kSession gcmNonce kContent.toList (aesKeyLen + gcmOverhead)
      = some enc)
    {identityPub : PubKey} {sig : Signature}
    (hsig : verify identityPub (respondSigned (K.pubkey ephS) enc.1) sig.1 = true)
    (hpins : NoConflict pins key identityPub) :
    openAnswer K P verify pins key eph (respondData (K.pubkey ephS) enc.1 sig) = some kContent := by
  obtain ⟨hlen, hread⟩ := sigLen_reads sig []
  have hagree : cryptoEcdhDerive K eph (K.pubkey ephS) = some kSession := by
    rw [cryptoEcdhDerive, K.shared_comm]
    exact hsession
  have hroom := enc.2
  have henclen := length_cryptoAesEncrypt P henc
  obtain ⟨hpub, hvalue, hcipher, hsigned, htail⟩ := respondData_layout (K.pubkey ephS)
    (show enc.1.length < 2 ^ 16 by simp at hroom; omega) sig
  have hdata := length_respondData (K.pubkey ephS) enc.1 sig
  have hpinned : refutesPin verify pins key (respondSigned (K.pubkey ephS) enc.1) sig.1
      = false := by
    unfold refutesPin
    cases hload : loadExistingSenderPin pins key with
    | none => rfl
    | some existing =>
      rw [hpins existing hload]
      simp [hsig]
  have hkey : cryptoAesDecrypt P kSession enc.1 (aesKeyLen + gcmOverhead)
      = some kContent.toList :=
    cryptoAesDecrypt_encrypt P henc (by simp)
  unfold openAnswer
  rw [if_neg (by omega)]
  simp only [hpub, hvalue, hcipher, hsigned, htail, hlen]
  rw [List.append_nil] at hread
  rw [if_neg (by omega), if_neg hread, List.take_length, hpinned, hagree, Option.bind_some, hkey,
    Option.bind_some]
  rw [if_neg (by decide), if_pos kContent.length_eq]
  have hfit := Bytes.fit_append kContent []
  rw [List.append_nil] at hfit
  rw [hfit]

end AnonSecNet.Retrieval
