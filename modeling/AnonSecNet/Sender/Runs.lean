import AnonSecNet.Sender.Upload

/-! What an upload sends and what the sender keeps over everything it does for other keys. -/
namespace AnonSecNet.Sender
open Octets
variable (P : Primitives)

/-- The packet of an upload. -/
def uploadPacket (s : SenderState) (key : CString) (content : List UInt8) (inp : UploadInput) :
    Option WirePacket :=
  (sealContent P s key content inp).bind fun sealed =>
    (sendAppRequest P (rememberOwnedKey s key sealed.1) .put key (some sealed.2) inp.send).1.toOption

theorem sealContent_eq_some {s : SenderState} {key : CString} {content : List UInt8}
    {inp : UploadInput} {kContent : AesKey} {blob : List UInt8}
    (h : sealContent P s key content inp = some (kContent, blob)) :
    ∃ sig gcmNonce ct, inp.signature = some sig ∧
      cryptoAesEncrypt P kContent gcmNonce content maxInnerPayload = some ct ∧
      blob = signedBlob s.identityPub sig ct.1 := by
  unfold sealContent at h
  split at h
  · cases h
  · split at h
    · cases h
    · split at h
      · rename_i sig k hsig _
        split at h
        · cases h
        · obtain ⟨gcmNonce, -, h⟩ := Option.bind_eq_some_iff.mp h
          obtain ⟨ct, hct, h⟩ := Option.map_eq_some_iff.mp h
          cases h
          exact ⟨sig, gcmNonce, ct, hsig, hct, rfl⟩
      · cases h

/-- An upload that succeeds has sealed the content and sent its packet, and the registry has the
content key if there is room. -/
theorem uploadContent_sent {s : SenderState} {key : CString} {content : List UInt8}
    {inp : UploadInput} (h : (uploadContent P s key content inp).1.isSent = true) :
    ∃ kContent blob, sealContent P s key content inp = some (kContent, blob) ∧
      (uploadPacket P s key content inp).isSome ∧
      (uploadContent P s key content inp).2.ownedKeys = (s.ownedKeys.put key kContent).2 := by
  unfold uploadPacket
  unfold uploadContent at h ⊢
  split at h
  · cases h
  · rename_i kContent blob hseal
    rw [hseal]
    have hkept := (sendAppRequest_spec P (rememberOwnedKey s key kContent) .put key (some blob)
      inp.send).kept
    dsimp only at h ⊢
    split at h
    · cases h
    · rename_i hshort
      rw [if_neg hshort]
      split at h
      · cases h
      · cases h
      · rename_i pkt s' hsend
        rw [hsend] at hkept
        refine ⟨kContent, blob, rfl, ?_, hkept.ownedKeys⟩
        rw [Option.bind_some, hsend]
        rfl

/-- The identity, the slots' paths and the state of the connection are as before. -/
structure SameSender (s s' : SenderState) : Prop where
  ready : s'.ready = s.ready
  identityPub : s'.identityPub = s.identityPub
  slots : SameSlots s s'

theorem SameSender.trans {s s' s'' : SenderState} (h : SameSender s s') (h' : SameSender s' s'') :
    SameSender s s'' :=
  ⟨h'.ready.trans h.ready, h'.identityPub.trans h.identityPub, h.slots.trans h'.slots⟩

theorem sendAppRequest_same (s : SenderState) (type : RequestType) (key : CString)
    (data : Option (List UInt8)) (inp : SendInput) :
    SameSender s (sendAppRequest P s type key data inp).2 := by
  have hkept := (sendAppRequest_spec P s type key data inp).kept
  exact ⟨hkept.ready, hkept.identityPub, sendAppRequest_slots P s type key data inp⟩

theorem uploadContent_same (s : SenderState) (key : CString) (content : List UInt8)
    (inp : UploadInput) : SameSender s (uploadContent P s key content inp).2 := by
  unfold uploadContent
  split
  · exact ⟨rfl, rfl, SameSlots.refl s⟩
  · rename_i kContent blob _
    have hremembered : SameSender s (rememberOwnedKey s key kContent) :=
      ⟨rfl, rfl, fun _ => ⟨rfl, rfl, rfl⟩⟩
    have hsent := hremembered.trans
      (sendAppRequest_same P (rememberOwnedKey s key kContent) .put key (some blob) inp.send)
    dsimp only
    split
    · exact hremembered
    · split
      all_goals
        rename_i hsend
        rw [hsend] at hsent
        exact hsent

/-- What the sender does for other keys leaves the entry of this key alone. -/
theorem step_keeps {t : Trace} {key : CString} {a : Act}
    (h : ∀ content inp, a ≠ .upload key content inp) :
    SameSender t.state (step P t a).state ∧
      lookupOwnedKey (step P t a).state key = lookupOwnedKey t.state key := by
  cases a with
  | upload key' content inp =>
    have hne : key ≠ key' := fun heq => h content inp (heq ▸ rfl)
    have hstate : (step P t (.upload key' content inp)).state
        = (uploadContent P t.state key' content inp).2 := by
      unfold step
      dsimp only
      split <;> rename_i hout <;> rw [hout]
    have hother : ∀ kContent, (t.state.ownedKeys.put key' kContent).2.get key
        = t.state.ownedKeys.get key := Keyed.Store.get_put_of_ne hne
    rw [hstate]
    refine ⟨uploadContent_same P t.state key' content inp, ?_⟩
    unfold lookupOwnedKey
    cases uploadContent_effect P t.state key' content inp with
    | early unprepared result registry => rw [registry]
    | overrun prepared copy result kContent registry => rw [registry, hother]
    | unsent prepared copy send result kContent drawn registry => rw [registry, hother]
    | sent prepared copy send blob result kContent drawn opens registry => rw [registry, hother]
  | heartbeat inp =>
    have hkept := (sendAppRequest_spec P t.state .heartbeat heartbeatName none inp).kept
    exact ⟨sendAppRequest_same P t.state .heartbeat heartbeatName none inp,
      congrArg (fun keys => Keyed.Store.get keys key) hkept.ownedKeys⟩
  | respond wire data inp =>
    have hkept := (sendAppRequest_spec P t.state .handshakeRespond wire (some data) inp).kept
    exact ⟨sendAppRequest_same P t.state .handshakeRespond wire (some data) inp,
      congrArg (fun keys => Keyed.Store.get keys key) hkept.ownedKeys⟩

theorem run_keeps {acts : List Act} {key : CString}
    (h : ∀ content inp, Act.upload key content inp ∉ acts) (t : Trace) :
    SameSender t.state (Machine.run (step P) acts t).state ∧
      lookupOwnedKey (Machine.run (step P) acts t).state key = lookupOwnedKey t.state key := by
  induction acts generalizing t with
  | nil => exact ⟨⟨rfl, rfl, SameSlots.refl _⟩, rfl⟩
  | cons a acts ih =>
    obtain ⟨hsame, hlookup⟩ := step_keeps P (t := t) (a := a)
      fun content inp heq => h content inp (heq ▸ List.mem_cons_self)
    obtain ⟨hsame', hlookup'⟩ := ih (fun content inp hmem =>
      h content inp (List.mem_cons_of_mem _ hmem)) (step P t a)
    exact ⟨hsame.trans hsame', hlookup'.trans hlookup⟩

end AnonSecNet.Sender
