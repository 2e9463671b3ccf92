import AnonSecNet.Foundation.Machine
import AnonSecNet.Sender.Requests
import Mathlib.Data.List.TakeWhile

/-! `upload_content` of `sender.c` and the registry of the content keys: what each call does
to the registry, and what the registry answers a handshake with between two calls. -/
namespace AnonSecNet.Sender
open Octets
variable (P : Primitives)

@[simp] abbrev signatureMaxLen : Nat := 80

abbrev Signature : Type := { sig : List UInt8 // 0 < sig.length ∧ sig.length ≤ signatureMaxLen }

/-- What an upload gets from outside: the signature and the random bytes, `none` when they
fail, and the input of its request. -/
structure UploadInput where
  signature : Option Signature
  kContent : Option AesKey
  gcmNonce : Option (Bytes gcmNonceLen)
  send : SendInput

/-- `remember_owned_key`; a full registry only logs. -/
def rememberOwnedKey (s : SenderState) (key : CString) (kContent : AesKey) : SenderState :=
  { s with ownedKeys := (s.ownedKeys.put key kContent).2 }

/-- `lookup_owned_key`. -/
def lookupOwnedKey (s : SenderState) (key : CString) : Option AesKey := s.ownedKeys.get key

/-- `[sender_pubkey(65)][sig_len(1)][sig][ciphertext]`. -/
def signedBlob (identityPub : Bytes ecPubkeyLen) (sig : Signature) (ciphertext : List UInt8) :
    List UInt8 :=
  identityPub.toList ++ UInt8.ofNat sig.1.length :: (sig.1 ++ ciphertext)

/-- The part of `upload_content` before the registry is written: the content key and the
signed blob. -/
def sealContent (s : SenderState) (key : CString) (content : List UInt8) (inp : UploadInput) :
    Option (AesKey × List UInt8) :=
  if s.ready = false then none
  else if maxSendKeyLen < key.1.length then none
  else
    match inp.signature, inp.kContent with
    | some sig, some kContent =>
      if maxInnerPayload < content.length + gcmOverhead then none
      else
        inp.gcmNonce.bind fun gcmNonce =>
          (cryptoAesEncrypt P kContent gcmNonce content maxInnerPayload).map fun ct =>
            (kContent, signedBlob s.identityPub sig ct.1)
    | _, _ => none

/-- With the blob that was sent. The acknowledgement does not change what the call returns. -/
def uploadContent (s : SenderState) (key : CString) (content : List UInt8) (inp : UploadInput) :
    SendOutcome (List UInt8) × SenderState :=
  match sealContent P s key content inp with
  | none => (.refused, s)
  | some (kContent, blob) =>
    let s := rememberOwnedKey s key kContent
    if 0xFFFF < blob.length then (.refused, s)
    else
      match sendAppRequest P s .put key (some blob) inp.send with
      | (.refused, s) => (.refused, s)
      | (.overrun, s) => (.overrun, s)
      | (.sent _, s) => (.sent blob, s)

/-- The content of a signed blob under a content key, as `verify_signed_content` of
`client.c` decrypts it. -/
def openBlob (kContent : AesKey) (blob : List UInt8) : Option (List UInt8) :=
  match blob.drop ecPubkeyLen with
  | [] => none
  | sigLen :: rest =>
    if sigLen = 0 ∨ signatureMaxLen < sigLen.toNat ∨ rest.length < sigLen.toNat then none
    else cryptoAesDecrypt P kContent (rest.drop sigLen.toNat) maxInnerPayload

/-- The content key `respond_worker` hands out for the wire key of a handshake. -/
def handshakeKey (s : SenderState) (wireKey : List UInt8) : Option AesKey :=
  lookupOwnedKey s ⟨(Cache.cstr wireKey).takeWhile (· ≠ 35), fun h =>
    absurd (List.mem_takeWhile_imp (List.takeWhile_subset _ h)) (by decide)⟩

/-! What one call owes the registry. -/

structure UploadContract (s : SenderState) (key : CString) (content : List UInt8)
    (inp : UploadInput) : Prop where
  returns : (uploadContent P s key content inp).1 ≠ .overrun
  failed : (uploadContent P s key content inp).1 = .refused →
    (uploadContent P s key content inp).2.ownedKeys = s.ownedKeys
  sent : ∀ blob, (uploadContent P s key content inp).1 = .sent blob →
    (∃ kContent, inp.kContent = some kContent ∧
      lookupOwnedKey (uploadContent P s key content inp).2 key = some kContent ∧
      openBlob P kContent blob = some content) ∧
    ∀ key', key' ≠ key →
      lookupOwnedKey (uploadContent P s key content inp).2 key' = lookupOwnedKey s key'

/-- The call gets as far as the registry. -/
def Prepared (s : SenderState) (key : CString) (content : List UInt8) (inp : UploadInput) : Prop :=
  s.ready = true ∧ key.1.length ≤ maxSendKeyLen ∧ inp.signature.isSome ∧ inp.kContent.isSome ∧
    inp.gcmNonce.isSome ∧ content.length + gcmOverhead ≤ maxInnerPayload

instance (s : SenderState) (key : CString) (content : List UInt8) (inp : UploadInput) :
    Decidable (Prepared s key content inp) := inferInstanceAs (Decidable (_ ∧ _))

def blobLen (content : List UInt8) (inp : UploadInput) : Nat :=
  ecPubkeyLen + 1 + (inp.signature.elim 0 fun sig => sig.1.length) +
    (content.length + gcmOverhead)

/-- A call that gets as far as the registry has a request that the buffer holds, finds room in the
registry if this is sent, and changes nothing there if it is not. -/
def UploadInStep (s : SenderState) (key : CString) (content : List UInt8) (inp : UploadInput) :
    Prop :=
  Prepared s key content inp →
    ¬ Overruns s key (some (blobLen content inp)) inp.send ∧
    (Sends s key (some (blobLen content inp)) inp.send → s.ownedKeys.Fits key) ∧
    (¬ Sends s key (some (blobLen content inp)) inp.send →
      ¬ s.ownedKeys.Fits key ∨ s.ownedKeys.get key = inp.kContent)

instance (s : SenderState) (key : CString) (content : List UInt8) (inp : UploadInput) :
    Decidable (UploadInStep s key content inp) := inferInstanceAs (Decidable (_ → _ ∧ _))

theorem openBlob_signedBlob {kContent : AesKey} {gcmNonce : Bytes gcmNonceLen}
    {content : List UInt8} {ct : { c : List UInt8 // c.length ≤ maxInnerPayload }}
    (h : cryptoAesEncrypt P kContent gcmNonce content maxInnerPayload = some ct)
    (identityPub : Bytes ecPubkeyLen) (sig : Signature) :
    openBlob P kContent (signedBlob identityPub sig ct.1) = some content := by
  have hsig := sig.2
  have hlen := length_cryptoAesEncrypt P h
  have hsigLen : (UInt8.ofNat sig.1.length).toNat = sig.1.length := by
    simp at hsig ⊢
    omega
  have hread : ¬ (UInt8.ofNat sig.1.length = 0 ∨ signatureMaxLen < sig.1.length ∨
      (sig.1 ++ ct.1).length < sig.1.length) := by
    rintro (h | h | h)
    · have h0 : sig.1.length = 0 := hsigLen.symm.trans (congrArg UInt8.toNat h)
      omega
    · omega
    · simp at h
  unfold openBlob signedBlob
  rw [List.drop_left' identityPub.length_eq]
  simp only [hsigLen]
  rw [if_neg hread, List.drop_left' rfl]
  exact cryptoAesDecrypt_encrypt P h (by have := ct.2; omega)

/-- Either the call fails before the registry is touched, or it has a content key and a blob
that this key opens. -/
theorem sealContent_spec (s : SenderState) (key : CString) (content : List UInt8)
    (inp : UploadInput) :
    (sealContent P s key content inp = none ∧ ¬ Prepared s key content inp) ∨
      ∃ kContent blob, sealContent P s key content inp = some (kContent, blob) ∧
        Prepared s key content inp ∧ inp.kContent = some kContent ∧
        blob.length = blobLen content inp ∧ openBlob P kContent blob = some content := by
  unfold sealContent Prepared
  split
  · rename_i hready
    exact Or.inl ⟨rfl, by simp [hready]⟩
  · rename_i hready
    split
    · rename_i hkey
      exact Or.inl ⟨rfl, by simp at hkey ⊢; omega⟩
    · rename_i hkey
      split
      · rename_i sig kContent hsig hrand
        split
        · rename_i hlarge
          exact Or.inl ⟨rfl, by simp at hlarge ⊢; omega⟩
        · rename_i hfits
          rcases hnonce : inp.gcmNonce with _ | gcmNonce
          · exact Or.inl ⟨rfl, by simp⟩
          · obtain ⟨ct, hct, hlen⟩ := cryptoAesEncrypt_of_fits P kContent gcmNonce content
              maxInnerPayload (by omega)
            refine Or.inr ⟨kContent, signedBlob s.identityPub sig ct.1, by simp [hct], ?_, hrand,
              ?_, openBlob_signedBlob P hct s.identityPub sig⟩
            · simp [hready, hsig, hrand] at hkey hfits ⊢
              omega
            · simp [signedBlob, blobLen, hsig] at hlen ⊢
              omega
      · rename_i hnone
        refine Or.inl ⟨rfl, fun h => ?_⟩
        obtain ⟨sig, hsig⟩ := Option.isSome_iff_exists.mp h.2.2.1
        obtain ⟨kContent, hrand⟩ := Option.isSome_iff_exists.mp h.2.2.2.1
        exact hnone sig kContent hsig hrand

/-- What a call does: nothing, or it puts its content key into the registry, whether its
request is sent or not. -/
inductive UploadEffect (s : SenderState) (key : CString) (content : List UInt8)
    (inp : UploadInput) (out : SendOutcome (List UInt8) × SenderState) : Prop where
  | early (unprepared : ¬ Prepared s key content inp) (result : out.1 = .refused)
      (registry : out.2.ownedKeys = s.ownedKeys)
  | overrun (prepared : Prepared s key content inp)
      (copy : Overruns s key (some (blobLen content inp)) inp.send) (result : out.1 = .overrun)
      (kContent : AesKey) (registry : out.2.ownedKeys = (s.ownedKeys.put key kContent).2)
  | unsent (prepared : Prepared s key content inp)
      (copy : ¬ Overruns s key (some (blobLen content inp)) inp.send)
      (send : ¬ Sends s key (some (blobLen content inp)) inp.send) (result : out.1 = .refused)
      (kContent : AesKey) (drawn : inp.kContent = some kContent)
      (registry : out.2.ownedKeys = (s.ownedKeys.put key kContent).2)
  | sent (prepared : Prepared s key content inp)
      (copy : ¬ Overruns s key (some (blobLen content inp)) inp.send)
      (send : Sends s key (some (blobLen content inp)) inp.send) (blob : List UInt8)
      (result : out.1 = .sent blob) (kContent : AesKey) (drawn : inp.kContent = some kContent)
      (opens : openBlob P kContent blob = some content)
      (registry : out.2.ownedKeys = (s.ownedKeys.put key kContent).2)

theorem uploadContent_effect (s : SenderState) (key : CString) (content : List UInt8)
    (inp : UploadInput) :
    UploadEffect P s key content inp (uploadContent P s key content inp) := by
  rcases sealContent_spec P s key content inp with
    ⟨hseal, hnot⟩ | ⟨kContent, blob, hseal, hprep, hdrawn, hlen, hopen⟩
  · unfold uploadContent
    rw [hseal]
    exact .early hnot rfl rfl
  · obtain ⟨hkept, hsent, hover⟩ := sendAppRequest_spec P (rememberOwnedKey s key kContent) .put key
      (some blob) inp.send
    have hcopy : Overruns (rememberOwnedKey s key kContent) key (some blob.length) inp.send ↔
        Overruns s key (some (blobLen content inp)) inp.send := by
      rw [hlen]
      exact Iff.rfl
    have hsends : Sends (rememberOwnedKey s key kContent) key (some blob.length) inp.send ↔
        Sends s key (some (blobLen content inp)) inp.send := by
      rw [hlen]
      exact Iff.rfl
    have hshort : blob.length ≤ 0xFFFF := by
      obtain ⟨-, -, hsig, -, -, hcontent⟩ := hprep
      obtain ⟨sig, hsig⟩ := Option.isSome_iff_exists.mp hsig
      have hbound := sig.2.2
      rw [hlen, blobLen, hsig]
      simp at hbound hcontent ⊢
      omega
    have hregistry : (sendAppRequest P (rememberOwnedKey s key kContent) .put key (some blob)
        inp.send).2.ownedKeys = (s.ownedKeys.put key kContent).2 := by
      rw [hkept]
      rfl
    unfold uploadContent
    rw [hseal]
    dsimp only
    rw [if_neg (by omega)]
    rcases hsend : sendAppRequest P (rememberOwnedKey s key kContent) .put key (some blob)
      inp.send with ⟨pkt | _ | _, s'⟩
    · rw [hsend] at hsent hover hregistry
      exact .sent hprep (fun h => nomatch hover.mpr (hcopy.mpr h)) (hsends.mp (hsent.mp rfl)) blob
        rfl kContent hdrawn hopen hregistry
    · rw [hsend] at hsent hover hregistry
      exact .unsent hprep (fun h => nomatch hover.mpr (hcopy.mpr h))
        (fun h => nomatch hsent.mpr (hsends.mpr h)) rfl kContent hdrawn hregistry
    · rw [hsend] at hover hregistry
      exact .overrun hprep (hcopy.mp (hover.mp rfl)) rfl kContent hregistry

theorem uploadContract_iff (s : SenderState) (key : CString) (content : List UInt8)
    (inp : UploadInput) :
    UploadContract P s key content inp ↔ UploadInStep s key content inp := by
  cases uploadContent_effect P s key content inp with
  | early unprepared result registry =>
    refine ⟨fun _ hprep => absurd hprep unprepared,
      fun _ => ⟨by rw [result]; nofun, fun _ => registry, ?_⟩⟩
    intro blob hblob
    rw [result] at hblob
    cases hblob
  | overrun prepared copy result kContent registry =>
    exact ⟨fun h => absurd result h.returns, fun h => absurd copy (h prepared).1⟩
  | unsent prepared copy send result kContent drawn registry =>
    constructor
    · intro h _
      have hsame := h.failed result
      rw [registry, Keyed.Store.put_eq_self_iff, ← drawn] at hsame
      exact ⟨copy, fun hsends => absurd hsends send, fun _ => hsame⟩
    · intro h
      have hsame := (h prepared).2.2 send
      rw [drawn, ← Keyed.Store.put_eq_self_iff] at hsame
      refine ⟨by rw [result]; nofun, fun _ => registry.trans hsame, fun blob hblob => ?_⟩
      rw [result] at hblob
      cases hblob
  | sent prepared copy send blob result kContent drawn opens registry =>
    constructor
    · intro h _
      refine ⟨copy, fun _ => ?_, fun hsends => absurd send hsends⟩
      obtain ⟨⟨kContent', -, hlookup, -⟩, -⟩ := h.sent blob result
      by_contra hfull
      rw [lookupOwnedKey, registry, Keyed.Store.put_of_not_fits hfull] at hlookup
      exact hfull (Or.inl (by rw [hlookup]; rfl))
    · intro h
      have hfits := (h prepared).2.1 send
      refine ⟨by rw [result]; nofun, fun hnone => ?_, fun blob' hblob => ?_⟩
      · rw [result] at hnone
        cases hnone
      · obtain rfl := SendOutcome.sent.inj (result.symm.trans hblob)
        refine ⟨⟨kContent, drawn, ?_, opens⟩, fun key' hne => ?_⟩
        · rw [lookupOwnedKey, registry, Keyed.Store.get_put_self hfits]
        · rw [lookupOwnedKey, registry, Keyed.Store.get_put_of_ne hne]
          rfl

/-! Runs of the sender, seen between two calls. -/

structure Upload where
  blob : List UInt8
  content : List UInt8
deriving DecidableEq

/-- The sender with the uploads that were sent, the last one first. -/
structure Trace where
  state : SenderState
  uploads : List (CString × Upload)

inductive Act where
  | upload (key : CString) (content : List UInt8) (inp : UploadInput)
  | heartbeat (inp : SendInput)
  | respond (wireKey : CString) (data : List UInt8) (inp : SendInput)

/-- The dummy key of `heartbeat_thread`. -/
def heartbeatName : CString := ⟨Gateway.heartbeatKey.1, by decide⟩

def step (t : Trace) : Act → Trace
  | .upload key content inp =>
    match uploadContent P t.state key content inp with
    | (.sent blob, s) => ⟨s, (key, ⟨blob, content⟩) :: t.uploads⟩
    | (.refused, s) => ⟨s, t.uploads⟩
    | (.overrun, s) => ⟨s, t.uploads⟩
  | .heartbeat inp => ⟨(sendAppRequest P t.state .heartbeat heartbeatName none inp).2, t.uploads⟩
  | .respond wireKey data inp =>
    ⟨(sendAppRequest P t.state .handshakeRespond wireKey (some data) inp).2, t.uploads⟩

def ActInStep (t : Trace) : Act → Prop
  | .upload key content inp => UploadInStep t.state key content inp
  | .heartbeat _ => True
  | .respond wireKey data inp => ¬ Overruns t.state wireKey (some data.length) inp

instance (t : Trace) (a : Act) : Decidable (ActInStep t a) := by
  cases a <;> (unfold ActInStep; infer_instance)

/-- No key is uploaded that has the character in it which separates a content key from the
nonce of a wire key. -/
def ActPlain (t : Trace) : Act → Prop
  | .upload key content inp =>
    Prepared t.state key content inp →
      Sends t.state key (some (blobLen content inp)) inp.send → 35 ∉ key.1
  | _ => True

instance (t : Trace) (a : Act) : Decidable (ActPlain t a) := by
  cases a <;> (unfold ActPlain; infer_instance)

/-- The registry has, for every key that was uploaded, the content key that opens the blob
sent last. -/
def KeysOpen (t : Trace) : Prop :=
  ∀ key up, t.uploads.lookup key = some up →
    ∃ kContent, lookupOwnedKey t.state key = some kContent ∧
      openBlob P kContent up.blob = some up.content

/-- So does every handshake for it, whatever the nonce of the receiver. -/
def HandshakesOpen (t : Trace) : Prop :=
  ∀ key up suffix, t.uploads.lookup key = some up →
    ∃ kContent, handshakeKey t.state (key.1 ++ 35 :: suffix) = some kContent ∧
      openBlob P kContent up.blob = some up.content

def Plain (t : Trace) : Prop := ∀ e ∈ t.uploads, 35 ∉ e.1.1

theorem keysOpen_step {t : Trace} (h : KeysOpen P t) {a : Act} (hin : ActInStep t a) :
    KeysOpen P (step P t a) := by
  cases a with
  | upload key content inp =>
    have hcontract := (uploadContract_iff P t.state key content inp).mpr hin
    unfold step
    dsimp only
    split
    · rename_i blob s' hout
      obtain ⟨⟨kContent, -, hlookup, hopen⟩, hother⟩ := hcontract.sent blob (by rw [hout])
      rw [hout] at hlookup hother
      intro key' up hup
      rw [List.lookup_cons] at hup
      by_cases hkey : key' = key
      · subst hkey
        rw [beq_self_eq_true] at hup
        obtain rfl := Option.some.inj hup
        exact ⟨kContent, hlookup, hopen⟩
      · rw [beq_false_of_ne hkey] at hup
        obtain ⟨k, hk, hopens⟩ := h key' up hup
        exact ⟨k, (hother key' hkey).trans hk, hopens⟩
    · rename_i s' hout
      have hsame := hcontract.failed (by rw [hout])
      rw [hout] at hsame
      intro key' up hup
      obtain ⟨k, hk, hopens⟩ := h key' up hup
      exact ⟨k, (congrArg (Keyed.Store.get · key') hsame).trans hk, hopens⟩
    · rename_i s' hout
      exact absurd (by rw [hout]) hcontract.returns
  | heartbeat inp =>
    intro key up hup
    obtain ⟨k, hk, hopens⟩ := h key up hup
    refine ⟨k, ?_, hopens⟩
    rw [lookupOwnedKey, step,
      (sendAppRequest_spec P t.state .heartbeat heartbeatName none inp).kept]
    exact hk
  | respond wireKey data inp =>
    intro key up hup
    obtain ⟨k, hk, hopens⟩ := h key up hup
    refine ⟨k, ?_, hopens⟩
    rw [lookupOwnedKey, step,
      (sendAppRequest_spec P t.state .handshakeRespond wireKey (some data) inp).kept]
    exact hk

theorem plain_step {t : Trace} (h : Plain t) {a : Act} (ha : ActPlain t a) :
    Plain (step P t a) := by
  cases a with
  | upload key content inp =>
    unfold step
    dsimp only
    split
    · rename_i blob s' hout
      intro e he
      rcases List.mem_cons.mp he with rfl | he
      · cases uploadContent_effect P t.state key content inp with
        | early unprepared result registry => rw [hout] at result; cases result
        | overrun prepared copy result kContent registry => rw [hout] at result; cases result
        | unsent prepared copy send result kContent drawn registry =>
          rw [hout] at result
          cases result
        | sent prepared copy send blob result kContent drawn opens registry =>
          exact ha prepared send
      · exact h e he
    · exact h
    · exact h
  | heartbeat inp => exact h
  | respond wireKey data inp => exact h

theorem takeWhile_append_sep {c : UInt8} {l : List UInt8} (hplain : c ∉ l) (l' : List UInt8) :
    (l ++ c :: l').takeWhile (· ≠ c) = l := by
  rw [List.takeWhile_append_of_pos fun b hb => by simpa using fun h : b = c => hplain (h ▸ hb)]
  simp

/-- The wire key of a handshake leads back to a content key without separator. -/
theorem handshakeKey_eq (s : SenderState) {key : CString} (hplain : 35 ∉ key.1)
    (suffix : List UInt8) :
    handshakeKey s (key.1 ++ 35 :: suffix) = lookupOwnedKey s key := by
  have hstring : Cache.cstr (key.1 ++ 35 :: suffix) = key.1 ++ 35 :: Cache.cstr suffix := by
    unfold Cache.cstr
    rw [List.takeWhile_append_of_pos fun b hb => by
      simpa using fun h0 : b = 0 => key.2 (h0 ▸ hb)]
    rfl
  unfold handshakeKey
  congr 1
  apply Subtype.ext
  dsimp only
  rw [hstring]
  exact takeWhile_append_sep hplain _

theorem handshakesOpen_of_plain {t : Trace} (h : KeysOpen P t) (hplain : Plain t) :
    HandshakesOpen P t := by
  intro key up suffix hup
  obtain ⟨l₁, l₂, hsplit, -⟩ := List.lookup_eq_some_iff.mp hup
  have hkey : 35 ∉ key.1 := hplain (key, up) (by rw [hsplit]; simp)
  rw [handshakeKey_eq t.state hkey]
  exact h key up hup

def Trace.start (s : SenderState) : Trace := ⟨s, []⟩

/-- Each call keeps the registry in step exactly if it finds room there and its request is
sent, or fails without having changed anything. In every run of such calls the registry and
every handshake have the content key of the blob sent last. -/
theorem upload_keeps_registry :
    (∀ s key content inp,
      UploadContract P s key content inp ↔ UploadInStep s key content inp) ∧
    ∀ s acts, Machine.StepsMeet (step P) ActInStep acts (Trace.start s) →
      Machine.Along (step P) (KeysOpen P) acts (Trace.start s) ∧
      (Machine.StepsMeet (step P) ActPlain acts (Trace.start s) →
        Machine.Along (step P) (HandshakesOpen P) acts (Trace.start s)) := by
  refine ⟨uploadContract_iff P, fun s acts hin => ?_⟩
  have hkeys : KeysOpen P (Trace.start s) := fun key up hup => by simp [Trace.start] at hup
  have hplain : Plain (Trace.start s) := fun e he => by simp [Trace.start] at he
  have halong := Machine.along_of_stepsMeet (step P) (KeysOpen P)
    (fun _ _ h hin => keysOpen_step P h hin) hkeys hin
  refine ⟨halong, fun hp => ?_⟩
  have hboth := Machine.along_of_stepsMeet (step P) (fun t => KeysOpen P t ∧ Plain t)
    (G := fun t a => ActInStep t a ∧ ActPlain t a)
    (fun _ _ h hg => ⟨keysOpen_step P h.1 hg.1, plain_step P h.2 hg.2⟩) ⟨hkeys, hplain⟩
    (hin.and (step P) hp)
  exact hboth.mono (step P) fun _ h => handshakesOpen_of_plain P h.1 h.2

def SenderState.sample : SenderState where
  ready := true
  identityPub := Bytes.zero _
  returnAddrs := Client.ReturnRoute.sample.returnAddrs
  slots _ :=
    { path := .sample, recvHops := Client.ReturnRoute.sample.recvHops, mnzPubkey := Bytes.zero _
      mnzAddr := Bytes.zero _, addr := addrPlain 9046, counters := ⟨0, 0, 0⟩
      pendingNonce := Bytes.zero _ }
  ownedKeys := .empty

def oneByteSignature : Signature := ⟨[1], by decide⟩

def UploadInput.sample (kContent : AesKey) (connects : Bool) : UploadInput where
  signature := some oneByteSignature
  kContent := some kContent
  gcmNonce := some (Bytes.zero _)
  send := ⟨⟨0, senderResponsePortCount_pos⟩, some fun _ => Bytes.zero _, some (Bytes.zero _),
    some (.sample 0), connects⟩

def sampleKey : CString := ⟨labelBytes "mykey", by decide⟩

def otherKey : CString := ⟨labelBytes "other", by decide⟩

/-- Uploads for two keys, one of them again, and in between one too large and a heartbeat. -/
def sampleUploads : List Act :=
  [.upload sampleKey [7] (.sample (sampleMaster 0) true),
    .upload otherKey [8] (.sample (sampleMaster 1) true),
    .upload otherKey (List.replicate 436 9) (.sample (sampleMaster 2) true),
    .heartbeat (UploadInput.sample (sampleMaster 2) true).send,
    .upload sampleKey [10] (.sample (sampleMaster 3) true)]

theorem upload_keeps_registry_sample :
    Machine.Along (step .sample) (HandshakesOpen .sample) sampleUploads (Trace.start .sample) ∧
      (Machine.run (step .sample) sampleUploads (Trace.start .sample)).uploads.length = 3 :=
  ⟨((upload_keeps_registry .sample).2 .sample sampleUploads (by decide +kernel)).2
    (by decide +kernel), by decide +kernel⟩

/-- The key is uploaded, and uploaded again while the entry node cannot be reached. -/
def failedReupload : List Act :=
  [.upload sampleKey [7] (.sample (sampleMaster 0) true),
    .upload sampleKey [8] (.sample (sampleMaster 1) false)]

def firstUpload : Upload :=
  ⟨((uploadContent .sample .sample sampleKey [7]
    (.sample (sampleMaster 0) true)).1.toOption).getD [], [7]⟩

/-- The call returns -1 and leaves a content key that does not open what was sent. -/
theorem failed_reupload_replaces_key :
    ¬ UploadContract .sample
        (step .sample (Trace.start .sample)
          (.upload sampleKey [7] (.sample (sampleMaster 0) true))).state
        sampleKey [8] (.sample (sampleMaster 1) false) ∧
      ¬ KeysOpen .sample (Machine.run (step .sample) failedReupload (Trace.start .sample)) := by
  constructor
  · intro h
    have hsame := congrArg (Keyed.Store.get · sampleKey) (h.failed (by decide +kernel))
    revert hsame
    decide +kernel
  · intro h
    obtain ⟨kContent, hlookup, hopen⟩ := h sampleKey firstUpload (by decide +kernel)
    have hnew : lookupOwnedKey (Machine.run (step .sample) failedReupload
        (Trace.start .sample)).state sampleKey = some (sampleMaster 1) := by decide +kernel
    obtain rfl := Option.some.inj (hlookup.symm.trans hnew)
    revert hopen
    decide +kernel

end AnonSecNet.Sender
