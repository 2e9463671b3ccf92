import AnonSecNet.Identity.PinPaths

/-! `verify_signed_content` of `client.c` on the pin files: parsing, pinning, decryption and the
signature, in this order. -/
namespace AnonSecNet.Identity
open Octets
open Retrieval (Verify Pins senderPinPath)
open Sender (CString)
variable (P : Primitives)

/-- `[sender_pubkey(65)][sig_len(1)][sig(sig_len)][ciphertext]`. -/
structure SignedContent where
  senderPub : PubKey
  sig : List UInt8
  ciphertext : List UInt8

def parseSignedContent (raw : List UInt8) : Option SignedContent :=
  match raw.drop ecPubkeyLen with
  | [] => none
  | sigLen :: rest =>
    if sigLen = 0 ∨ Sender.signatureMaxLen < sigLen.toNat ∨ rest.length < sigLen.toNat then none
    else some ⟨Bytes.fit ecPubkeyLen raw, rest.take sigLen.toNat, rest.drop sigLen.toNat⟩

/-- The plaintext, and the files after the call. -/
def verifySignedContent (verify : Verify) (io : FileIo) (files : Files) (key : CString)
    (raw : List UInt8) (kContent : AesKey) : Option (List UInt8) × Files :=
  match parseSignedContent raw with
  | none => (none, files)
  | some c =>
    match pinSenderKey io files key c.senderPub with
    | (false, files) => (none, files)
    | (true, files) =>
      match cryptoAesDecrypt P kContent c.ciphertext maxInnerPayload with
      | none => (none, files)
      | some plain => if verify c.senderPub plain c.sig then (some plain, files) else (none, files)

/-- The content decrypts to what its identity has signed. -/
def SignedContent.Authentic (verify : Verify) (kContent : AesKey) (c : SignedContent) : Prop :=
  ∃ plain, cryptoAesDecrypt P kContent c.ciphertext maxInnerPayload = some plain ∧
    verify c.senderPub plain c.sig = true

/-- A failed call leaves the files alone, and what a call stores is the pin of an identity whose
signature has verified. -/
structure PinsGuarded (verify : Verify) (io : FileIo) (files : Files) (key : CString)
    (raw : List UInt8) (kContent : AesKey) : Prop where
  failed : (verifySignedContent P verify io files key raw kContent).1 = none →
    (verifySignedContent P verify io files key raw kContent).2 = files
  stored : ∀ path, (verifySignedContent P verify io files key raw kContent).2 path ≠ files path →
    path = senderPinFile key ∧ ∃ c, parseSignedContent raw = some c ∧
      c.Authentic P verify kContent ∧
      (verifySignedContent P verify io files key raw kContent).2 path
        = some (c.senderPub.toList.take io.stored)

/-- Nothing is written before the signature is checked, or nothing new; or the check succeeds. -/
def WritesSafely (verify : Verify) (io : FileIo) (files : Files) (key : CString)
    (raw : List UInt8) (kContent : AesKey) : Prop :=
  ∀ c, parseSignedContent raw = some c →
    (cryptoPubkeyLoad io (files (senderPinFile key))).isSome ∨ io.writable = false ∨
      files (senderPinFile key) = some (c.senderPub.toList.take io.stored) ∨
      (io.reported = true ∧ c.Authentic P verify kContent)

/-! What a call does. -/

/-- The pin function writes only where no pin can be loaded. -/
theorem pinFile_cases (io : FileIo) (pub : PubKey) (file : Option (List UInt8)) :
    (pinFile io pub file).2 = file ∨
      ((cryptoPubkeyLoad io file = none ∧ io.writable = true) ∧
        pinFile io pub file = (io.reported, some (pub.toList.take io.stored))) := by
  unfold pinFile
  cases hload : cryptoPubkeyLoad io file with
  | some existing => exact Or.inl rfl
  | none =>
    dsimp only [cryptoPubkeySave]
    cases hwrite : io.writable with
    | false => exact Or.inl rfl
    | true => exact Or.inr ⟨⟨rfl, rfl⟩, rfl⟩

theorem verifySignedContent_files (verify : Verify) (io : FileIo) (files : Files) (key : CString)
    {raw : List UInt8} (kContent : AesKey) {c : SignedContent}
    (hparse : parseSignedContent raw = some c) :
    (verifySignedContent P verify io files key raw kContent).2
      = (pinSenderKey io files key c.senderPub).2 := by
  unfold verifySignedContent
  rw [hparse]
  dsimp only
  rcases pinSenderKey io files key c.senderPub with ⟨_ | _, files'⟩
  · rfl
  · dsimp only
    cases cryptoAesDecrypt P kContent c.ciphertext maxInnerPayload with
    | none => rfl
    | some plain =>
      dsimp only
      split <;> rfl

theorem verifySignedContent_isSome_iff (verify : Verify) (io : FileIo) (files : Files)
    (key : CString) {raw : List UInt8} (kContent : AesKey) {c : SignedContent}
    (hparse : parseSignedContent raw = some c) :
    (verifySignedContent P verify io files key raw kContent).1.isSome ↔
      (pinSenderKey io files key c.senderPub).1 = true ∧ c.Authentic P verify kContent := by
  unfold verifySignedContent SignedContent.Authentic
  rw [hparse]
  dsimp only
  rcases pinSenderKey io files key c.senderPub with ⟨_ | _, files'⟩
  · simp
  · cases cryptoAesDecrypt P kContent c.ciphertext maxInnerPayload with
    | none => simp
    | some plain => cases hverify : verify c.senderPub plain c.sig <;> simp [hverify]

theorem verifySignedContent_malformed (verify : Verify) (io : FileIo) (files : Files)
    (key : CString) {raw : List UInt8} (kContent : AesKey)
    (hparse : parseSignedContent raw = none) :
    verifySignedContent P verify io files key raw kContent = (none, files) := by
  unfold verifySignedContent
  rw [hparse]

theorem pinsGuarded_of_unchanged {verify : Verify} {io : FileIo} {files : Files} {key : CString}
    {raw : List UInt8} {kContent : AesKey}
    (h : (verifySignedContent P verify io files key raw kContent).2 = files) :
    PinsGuarded P verify io files key raw kContent :=
  ⟨fun _ => h, fun path hpath => absurd (congrFun h path) hpath⟩

/-- The pin store is guarded exactly when nothing is written ahead of the signature check. -/
theorem pins_guarded_iff (verify : Verify) (io : FileIo) (files : Files) (key : CString)
    (raw : List UInt8) (kContent : AesKey) :
    PinsGuarded P verify io files key raw kContent ↔
      WritesSafely P verify io files key raw kContent := by
  cases hparse : parseSignedContent raw with
  | none =>
    have hcall := verifySignedContent_malformed P verify io files key kContent hparse
    constructor
    · intro _ c hc
      cases hparse.symm.trans hc
    · intro _
      exact pinsGuarded_of_unchanged P (congrArg Prod.snd hcall)
  | some c =>
    have hfiles := verifySignedContent_files P verify io files key kContent hparse
    have hsome := verifySignedContent_isSome_iff P verify io files key kContent hparse
    rw [pinSenderKey, pinAt_fst] at hsome
    rw [pinSenderKey, pinAt_snd] at hfiles
    constructor
    · intro guarded c' hc'
      obtain rfl := Option.some.inj (hparse.symm.trans hc')
      rw [or_iff_not_imp_left]
      intro hload
      rw [or_iff_not_imp_left, Bool.not_eq_false]
      intro hwrite
      have hsave : pinFile io c.senderPub (files (senderPinFile key))
          = (io.reported, some (c.senderPub.toList.take io.stored)) := by
        simp only [pinFile, Option.not_isSome_iff_eq_none.mp hload, cryptoPubkeySave, hwrite,
          if_true]
      rw [hsave] at hfiles hsome
      cases hresult : (verifySignedContent P verify io files key raw kContent).1 with
      | none =>
        have hsame := hfiles.symm.trans (guarded.failed hresult)
        exact Or.inl (Function.update_eq_self_iff.mp hsame).symm
      | some plain => exact Or.inr (hsome.mp (by rw [hresult]; rfl))
    · intro hsafe
      rcases pinFile_cases io c.senderPub (files (senderPinFile key)) with
        hkept | ⟨⟨hload, hwrite⟩, hsave⟩
      · refine pinsGuarded_of_unchanged P (hfiles.trans ?_)
        rw [hkept, Function.update_eq_self]
      · rw [hsave] at hfiles hsome
        rcases hsafe c hparse with hloaded | hno | hsame | hauth
        · rw [hload] at hloaded
          cases hloaded
        · rw [hwrite] at hno
          cases hno
        · refine pinsGuarded_of_unchanged P (hfiles.trans ?_)
          exact Function.update_eq_self_iff.mpr hsame.symm
        · have hresult := hsome.mpr hauth
          refine ⟨fun hnone => ?_, fun path hpath => ?_⟩
          · rw [hnone] at hresult
            cases hresult
          · rw [hfiles] at hpath ⊢
            by_cases hp : path = senderPinFile key
            · subst hp
              exact ⟨rfl, c, hparse, hauth.2, Function.update_self _ _ _⟩
            · exact absurd (Function.update_of_ne hp _ _) hpath

/-- A first response whose ciphertext is too short to be one. -/
def forgedResponse : List UInt8 := (sampleIdentity 7).toList ++ [1, 0]

/-- The forger's identity stays pinned. -/
theorem forged_response_pins :
    (verifySignedContent .sample (fun _ _ _ => true) .working (fun _ => none)
        ⟨labelBytes "doc", by decide⟩ forgedResponse (sampleMaster 0)).1 = none ∧
      ¬ PinsGuarded .sample (fun _ _ _ => true) .working (fun _ => none)
        ⟨labelBytes "doc", by decide⟩ forgedResponse (sampleMaster 0) := by
  have hfailed : (verifySignedContent .sample (fun _ _ _ => true) .working (fun _ => none)
      ⟨labelBytes "doc", by decide⟩ forgedResponse (sampleMaster 0)).1 = none := by decide +kernel
  refine ⟨hfailed, fun guarded => ?_⟩
  have hpin := congrFun (guarded.failed hfailed) (senderPinFile ⟨labelBytes "doc", by decide⟩)
  revert hpin
  decide +kernel

/-! The pins that can be loaded, as the rest of the retrieval sees them. -/

/-- The pin under the sanitised name of a content key. -/
def pinsOf (files : Files) : Pins := fun name =>
  cryptoPubkeyLoad .working (files (senderPinDir ++ pinFileName name))

theorem load_pinsOf (saves : Bool) (files : Files) (key : CString) :
    Retrieval.loadExistingSenderPin (pinsOf files) key
      = cryptoPubkeyLoad (.ofSaves saves) (files (senderPinFile key)) := by
  rw [senderPinFile_eq]
  rfl

theorem pinsOf_update (files : Files) (key : CString) (file : Option (List UInt8)) :
    pinsOf (Function.update files (senderPinFile key) file)
      = Function.update (pinsOf files) (senderPinPath key) (cryptoPubkeyLoad .working file) := by
  funext name
  unfold pinsOf
  by_cases hname : name = senderPinPath key
  · subst hname
    rw [Function.update_self, senderPinFile_eq, Function.update_self]
  · rw [Function.update_of_ne hname, senderPinFile_eq, Function.update_of_ne]
    rwa [ne_eq, List.append_cancel_left_eq, pinFileName_inj]

theorem load_saved (pub : PubKey) :
    cryptoPubkeyLoad .working (some (pub.toList.take ecPubkeyLen)) = some pub := by
  have hfit := Bytes.fit_append pub []
  rw [List.append_nil] at hfit
  rw [List.take_of_length_le (by simp)]
  simp only [cryptoPubkeyLoad, FileIo.ofSaves, Option.bind_some, Bytes.length_eq, le_refl, and_self,
    if_true, hfit]

theorem pinSenderKey_refines (saves : Bool) (files : Files) (key : CString) (pub : PubKey) :
    Retrieval.pinSenderKey (pinsOf files) key pub saves =
      if (pinSenderKey (.ofSaves saves) files key pub).1 then
        some (pinsOf (pinSenderKey (.ofSaves saves) files key pub).2)
      else none := by
  unfold Retrieval.pinSenderKey
  rw [load_pinsOf saves, pinSenderKey, pinAt_fst, pinAt_snd]
  cases hload : cryptoPubkeyLoad (.ofSaves saves) (files (senderPinFile key)) with
  | some existing =>
    have hpin : pinFile (.ofSaves saves) pub (files (senderPinFile key))
        = (decide (existing = pub), files (senderPinFile key)) := by
      unfold pinFile
      rw [hload]
    rw [hpin, Function.update_eq_self]
    by_cases hpub : existing = pub <;> simp [hpub]
  | none =>
    have hpin : pinFile (.ofSaves saves) pub (files (senderPinFile key))
        = cryptoPubkeySave (.ofSaves saves) pub (files (senderPinFile key)) := by
      unfold pinFile
      rw [hload]
    rw [hpin]
    cases saves with
    | false => rfl
    | true =>
      have hsave : cryptoPubkeySave .working pub (files (senderPinFile key))
          = (true, some (pub.toList.take ecPubkeyLen)) := rfl
      rw [hsave, if_pos rfl, if_pos rfl, pinsOf_update, load_saved]

theorem pinSenderKey_refused {saves : Bool} {files files' : Files} {key : CString} {pub : PubKey}
    (h : pinSenderKey (.ofSaves saves) files key pub = (false, files')) : files' = files := by
  have hok := congrArg Prod.fst h
  have hfiles := congrArg Prod.snd h
  rw [pinSenderKey, pinAt_fst] at hok
  rw [pinSenderKey, pinAt_snd] at hfiles
  rcases pinFile_cases (.ofSaves saves) pub (files (senderPinFile key)) with hkept | ⟨-, hsave⟩
  · rw [hkept, Function.update_eq_self] at hfiles
    exact hfiles.symm
  · rw [hsave] at hok
    cases hok

theorem verifySignedContent_refines (verify : Verify) (saves : Bool) (files : Files)
    (key : CString) (raw : List UInt8) (kContent : AesKey) :
    Retrieval.verifySignedContent P verify (pinsOf files) saves key raw kContent =
      ((verifySignedContent P verify (.ofSaves saves) files key raw kContent).1,
        pinsOf (verifySignedContent P verify (.ofSaves saves) files key raw kContent).2) := by
  unfold Retrieval.verifySignedContent verifySignedContent parseSignedContent
  cases raw.drop ecPubkeyLen with
  | nil => rfl
  | cons sigLen rest =>
    dsimp only
    by_cases hlen : sigLen = 0 ∨ Sender.signatureMaxLen < sigLen.toNat ∨ rest.length < sigLen.toNat
    · rw [if_pos hlen, if_pos hlen]
    · rw [if_neg hlen, if_neg hlen, pinSenderKey_refines]
      dsimp only
      rcases hpin : pinSenderKey (.ofSaves saves) files key (Bytes.fit ecPubkeyLen raw)
        with ⟨_ | _, files'⟩
      · obtain rfl := pinSenderKey_refused hpin
        rfl
      · dsimp only
        rw [if_pos rfl]
        cases cryptoAesDecrypt P kContent (rest.drop sigLen.toNat) maxInnerPayload with
        | none => rfl
        | some plain =>
          dsimp only
          split <;> rfl

end AnonSecNet.Identity
