import AnonSecNet.Foundation.Machine
import AnonSecNet.Gateway.Binding

/-! Which keys and IVs the return packets of a session are encrypted and blinded under. -/
namespace AnonSecNet.Gateway
open Octets
variable (P : Primitives)

/-- The GCM layer under the partner's key and the blinding layer of each relay. -/
inductive ReturnLayer where
  | encrypt
  | blind (hop : Fin nPathHops)

/-- A call of a cipher: its layer, key and IV. -/
structure CipherUse where
  layer : ReturnLayer
  key : AesKey
  iv : List UInt8

def encryptUse (e2eKey : AesKey) (gcmNonce : Bytes gcmNonceLen) : CipherUse :=
  ⟨.encrypt, e2eKey, gcmNonce.toList⟩

/-- `packet_aes_ctr_xor` has the zero IV. -/
def blindUse (recvBlind : Fin nPathHops → AesKey) (hop : Fin nPathHops) : CipherUse :=
  ⟨.blind hop, recvBlind hop, (Bytes.zero 16).toList⟩

/-- The blinding, which notes the key and IV of each call. -/
def blindNoted (recvBlind : Fin nPathHops → AesKey) (hops : List (Fin nPathHops))
    (noted : Bytes returnPayloadSize × List CipherUse) : Bytes returnPayloadSize × List CipherUse :=
  hops.foldr (fun hop acc =>
    (packetAesCtrXorIv P (recvBlind hop) (Bytes.zero 16) acc.1 returnPayload_le,
      blindUse recvBlind hop :: acc.2))
    noted

/-- `sendResponseEx`, which notes the key and IV of each call of a cipher. -/
def sendResponseNoted (recvBlind : Fin nPathHops → AesKey) (e2eKey : AesKey)
    (useHdr : ReturnHeader) (flags : UInt8) (resp : List UInt8) (gcmNonce : Bytes gcmNonceLen) :
    Option (WirePacket × List CipherUse) :=
  if returnPayloadSize - 2 - gcmOverhead - 1 < resp.length then none
  else
    (cryptoAesEncrypt P e2eKey gcmNonce (flags :: resp) (returnPayloadSize - 2)).map fun enc =>
      let noted := blindNoted P recvBlind (List.finRange nPathHops)
        (returnPayload enc, [encryptUse e2eKey gcmNonce])
      (useHdr ++ noted.1, noted.2)

theorem blindNoted_eq (recvBlind : Fin nPathHops → AesKey) (hops : List (Fin nPathHops))
    (noted : Bytes returnPayloadSize × List CipherUse) :
    blindNoted P recvBlind hops noted
      = (preBlind P recvBlind hops noted.1, hops.map (blindUse recvBlind) ++ noted.2) := by
  induction hops with
  | nil => rfl
  | cons hop hops ih =>
    unfold blindNoted at ih ⊢
    rw [List.foldr_cons, ih]
    rfl

/-- The notes change nothing, and are these. -/
theorem sendResponseNoted_eq (recvBlind : Fin nPathHops → AesKey) (e2eKey : AesKey)
    (useHdr : ReturnHeader) (flags : UInt8) (resp : List UInt8) (gcmNonce : Bytes gcmNonceLen) :
    sendResponseNoted P recvBlind e2eKey useHdr flags resp gcmNonce
      = (sendResponseEx P recvBlind e2eKey useHdr flags resp gcmNonce).map fun w => (w,
          (List.finRange nPathHops).map (blindUse recvBlind) ++ [encryptUse e2eKey gcmNonce]) := by
  unfold sendResponseNoted sendResponseEx
  split
  · rfl
  · rw [Option.map_map]
    refine congrArg (Option.map · _) (funext fun enc => ?_)
    dsimp only
    rw [blindNoted_eq]
    rfl

/-- What the ciphers are called with for the packet. -/
def Sending.uses (e : Sending) : List CipherUse :=
  ((sendResponseNoted P e.sess.recvBlind e.e2eKey e.hdr e.flags e.resp e.gcmNonce).map
    Prod.snd).getD []

/-- The two packets share no key and IV at any layer. -/
def Sending.Apart (e e' : Sending) : Prop := ∀ u ∈ e.uses P, u ∉ e'.uses P

/-- The same session, not only the same slot. -/
def Emission.SameSession (e e' : Emission) : Prop := e.aIdx = e'.aIdx ∧ e.epoch = e'.epoch

/-- No two return packets of one session share a key and IV at a layer. -/
def KeystreamsUnique (s : GwState) : Prop :=
  s.sent.Pairwise fun e e' => e.SameSession e' → e.Apart P e'.toSending

/-- The step sends a return packet of session `i`, for a partner with this key. -/
def SendsFor (s : GwState) (a : GwAct) (i : Fin maxSessions) (key : AesKey) : Prop :=
  ∃ e, (gwStep P s a).sent = s.sent ++ [e] ∧ (e.packet P).isSome ∧ e.aIdx = i ∧ e.e2eKey = key

/-- The payload of the last SETUP of slot `i`, when the step has stored its own. -/
def HeldSetup (s : GwState) (a : GwAct) (i : Fin maxSessions) (payload : List UInt8) : Prop :=
  StoresSetup P s a i payload ∨ (∀ payload', ¬ StoresSetup P s a i payload') ∧ payload = s.setup i

/-- The nonce that `crypto_aes_encrypt` draws in this step. -/
def GwAct.nonce : GwAct → Option (Bytes gcmNonceLen)
  | .receive _ _ _ gcmNonce => some gcmNonce
  | .flush _ _ gcmNonce => some gcmNonce
  | .extend .. => none
  | .reply .. => none

/-- A step that sends a packet does so under a SETUP that has, for each relay, another key than the
SETUP of every earlier packet of the session, and with a nonce that is new for the partner's key. -/
def SendsFresh (s : GwState) (a : GwAct) : Prop :=
  ∀ i key payload, SendsFor P s a i key → HeldSetup P s a i payload →
    ∀ e₀ ∈ s.sent, (e₀.packet P).isSome → e₀.aIdx = i → e₀.epoch = s.epoch i →
      (∀ hop, setupBlind e₀.setup hop ≠ setupBlind payload hop) ∧
        (e₀.e2eKey = key → a.nonce ≠ some e₀.gcmNonce)

/-! The keys of a packet. -/

theorem Sending.uses_eq {e : Sending} (h : (e.packet P).isSome) :
    e.uses P = (List.finRange nPathHops).map (blindUse e.sess.recvBlind)
      ++ [encryptUse e.e2eKey e.gcmNonce] := by
  obtain ⟨w, hw⟩ := Option.isSome_iff_exists.mp h
  unfold Sending.packet at hw
  unfold Sending.uses
  rw [sendResponseNoted_eq, hw]
  rfl

theorem Sending.uses_none {e : Sending} (h : e.packet P = none) : e.uses P = [] := by
  unfold Sending.packet at h
  unfold Sending.uses
  rw [sendResponseNoted_eq, h]
  rfl

theorem Sending.apart_iff {e e' : Sending} (h : (e.packet P).isSome) (h' : (e'.packet P).isSome) :
    e.Apart P e' ↔ (∀ hop, e.sess.recvBlind hop ≠ e'.sess.recvBlind hop) ∧
      (e.e2eKey = e'.e2eKey → e'.gcmNonce ≠ e.gcmNonce) := by
  unfold Sending.Apart
  rw [Sending.uses_eq P h, Sending.uses_eq P h']
  constructor
  · intro hapart
    constructor
    · intro hop heq
      have hmem : ∀ f : Fin nPathHops → AesKey, ∀ us,
          blindUse f hop ∈ (List.finRange nPathHops).map (blindUse f) ++ us := fun f us =>
        List.mem_append_left _ (List.mem_map_of_mem (List.mem_finRange hop))
      have hsame : blindUse e.sess.recvBlind hop = blindUse e'.sess.recvBlind hop := by
        unfold blindUse
        rw [heq]
      exact hapart _ (hmem _ _) (hsame ▸ hmem _ _)
    · intro hkey hnonce
      have hmem : ∀ u : CipherUse, ∀ us, u ∈ us ++ [u] := fun u us =>
        List.mem_append_right _ (List.mem_singleton_self u)
      have hsame : encryptUse e.e2eKey e.gcmNonce = encryptUse e'.e2eKey e'.gcmNonce := by
        rw [hkey, hnonce]
      exact hapart _ (hmem _ _) (hsame ▸ hmem _ _)
  · intro hkeys u hu hu'
    obtain hu | hu := List.mem_append.mp hu
    · obtain ⟨hop, -, rfl⟩ := List.mem_map.mp hu
      obtain hu' | hu' := List.mem_append.mp hu'
      · obtain ⟨hop', -, heq⟩ := List.mem_map.mp hu'
        obtain ⟨hhop, hkey, -⟩ := CipherUse.mk.inj heq
        obtain rfl := ReturnLayer.blind.inj hhop
        exact hkeys.1 hop' hkey.symm
      · exact nomatch congrArg CipherUse.layer (List.mem_singleton.mp hu')
    · obtain rfl := List.mem_singleton.mp hu
      obtain hu' | hu' := List.mem_append.mp hu'
      · obtain ⟨hop', -, heq⟩ := List.mem_map.mp hu'
        exact nomatch congrArg CipherUse.layer heq
      · obtain ⟨-, hkey, hnonce⟩ := CipherUse.mk.inj (List.mem_singleton.mp hu')
        exact hkeys.2 hkey (Bytes.ext hnonce.symm)

/-! The blinding keys of a slot are those of its last SETUP. -/

structure SentInv (s : GwState) : Prop where
  table : ∀ i, (s.table i).recvBlind = setupBlind (s.setup i)
  sent : ∀ e ∈ s.sent, e.sess.recvBlind = setupBlind e.setup

theorem setupBlind_nil : setupBlind [] = zeroSession.recvBlind := by
  funext hop
  unfold setupBlind
  rw [List.drop_nil]
  exact Bytes.ext (Bytes.toList_fit_padded (Nat.zero_le _))

theorem SentInv.initial : SentInv GwState.initial where
  table _ := setupBlind_nil.symm
  sent e he := by simp [GwState.initial] at he

theorem blind_of_view {t t' : Table} (h : view t' = view t) (i : Fin maxSessions) :
    (t' i).recvBlind = (t i).recvBlind := congrArg Prod.snd (congrFun h i)

/-- The blinding keys after a stored SETUP are those of its payload. -/
theorem SetupEnd.blind {v v' : View} {i : Fin maxSessions} {payload : List UInt8}
    {out : Option Sending} (h : SetupEnd P (setupView v i payload) i out v') :
    (∀ k, k ≠ i → (v' k).2 = (v k).2) ∧ (v' i).2 = setupBlind payload ∧
      ∀ e, out = some e → e.aIdx = i ∧ e.sess.recvBlind = setupBlind payload := by
  have hself : (setupView v i payload i).2 = setupBlind payload := by
    rw [setupView, Function.update_self]
  have hother : ∀ k, k ≠ i → (setupView v i payload k).2 = (v k).2 := fun k hk => by
    rw [setupView, Function.update_of_ne hk]
  cases h with
  | verified j e partner tag idx key sess =>
    refine ⟨fun k hk => ?_, ?_, fun e' he => ?_⟩
    · rw [Function.update_of_ne hk, hother k hk]
    · rw [Function.update_self]
      exact hself
    · cases he
      exact ⟨idx, (congrArg Prod.snd sess).trans hself⟩
  | mismatch j partner tag =>
    refine ⟨hother, hself, fun e he => ?_⟩
    cases he
  | alone partner =>
    refine ⟨fun k hk => ?_, ?_, fun e he => ?_⟩
    · rw [Function.update_of_ne hk, hother k hk]
    · rw [Function.update_self]
      exact hself
    · cases he

theorem mem_sent_append {s s' : GwState} {out : Option Sending} {epoch : Sending → Nat}
    {setup : Sending → List UInt8}
    (hsent : s'.sent = s.sent ++ out.toList.map fun e => ⟨e, epoch e, setup e⟩) {e : Emission}
    (he : e ∈ s'.sent) :
    e ∈ s.sent ∨ (out = some e.toSending ∧ e.setup = setup e.toSending) := by
  rw [hsent] at he
  obtain he | he := List.mem_append.mp he
  · exact .inl he
  · obtain ⟨e', he', rfl⟩ := List.mem_map.mp he
    exact .inr ⟨Option.mem_toList.mp he', rfl⟩

theorem SentInv.step {s : GwState} (inv : SentInv s) (a : GwAct) : SentInv (gwStep P s a) := by
  cases gwStep_effect P s a with
  | sends out idle partnered view_eq epoch setup sent =>
    constructor
    · intro i
      rw [setup, blind_of_view view_eq]
      exact inv.table i
    · intro e he
      obtain he | ⟨hout, hsetup⟩ := mem_sent_append sent he
      · exact inv.sent e he
      · obtain ⟨j, -, hsess, -⟩ := partnered _ hout
        rw [hsetup]
        exact (congrArg Prod.snd hsess).trans (inv.table e.aIdx)
  | extended i master role takes idle view_eq epoch setup sent =>
    constructor
    · intro k
      have hk := congrArg Prod.snd (congrFun view_eq k)
      rw [setup]
      by_cases hki : k = i
      · rw [hki, Function.update_self] at hk ⊢
        exact hk.trans setupBlind_nil.symm
      · rw [Function.update_of_ne hki] at hk ⊢
        exact hk.trans (inv.table k)
    · rw [sent]
      exact inv.sent
  | setup i payload out stores idle slot tagged ends epoch setup sent =>
    obtain ⟨hother, hself, hack⟩ := SetupEnd.blind P ends
    constructor
    · intro k
      rw [setup]
      by_cases hki : k = i
      · rw [hki, Function.update_self]
        exact hself
      · rw [Function.update_of_ne hki]
        exact (hother k hki).trans (inv.table k)
    · intro e he
      obtain he | ⟨hout, hsetup⟩ := mem_sent_append sent he
      · exact inv.sent e he
      · obtain ⟨hidx, hblind⟩ := hack _ hout
        rw [hsetup, setup, hidx, Function.update_self]
        exact hblind

/-! What a step sends. -/

theorem HeldSetup.unique {s : GwState} {a : GwAct} {i : Fin maxSessions}
    {payload payload' : List UInt8} (h : HeldSetup P s a i payload)
    (h' : HeldSetup P s a i payload') : payload = payload' := by
  cases h with
  | inl hstores =>
    cases h' with
    | inl hstores' => exact (hstores.unique P hstores').2
    | inr hheld => exact absurd hstores (hheld.1 payload)
  | inr hheld =>
    cases h' with
    | inl hstores' => exact absurd hstores' (hheld.1 payload')
    | inr hheld' => exact hheld.2.trans hheld'.2.symm

/-- A step sends at most one packet, under the SETUP that its slot has then. -/
theorem gwStep_sent (s : GwState) (a : GwAct) :
    (gwStep P s a).sent = s.sent ∨ ∃ e, (gwStep P s a).sent = s.sent ++ [e] ∧
      e.epoch = s.epoch e.aIdx ∧ HeldSetup P s a e.aIdx e.setup := by
  cases gwStep_effect P s a with
  | sends out idle partnered view_eq epoch setup sent =>
    cases out with
    | none => exact .inl (sent.trans (List.append_nil _))
    | some e => exact .inr ⟨_, sent, rfl, .inr ⟨idle.1 e.aIdx, rfl⟩⟩
  | extended i master role takes idle view_eq epoch setup sent => exact .inl sent
  | setup i payload out stores idle slot tagged ends epoch setup sent =>
    cases out with
    | none => exact .inl (sent.trans (List.append_nil _))
    | some e =>
      obtain ⟨hidx, -⟩ := (SetupEnd.blind P ends).2.2 e rfl
      have hheld : (gwStep P s a).setup e.aIdx = payload := by
        rw [setup, hidx, Function.update_self]
      refine .inr ⟨_, sent, rfl, .inl ?_⟩
      dsimp only
      rw [hheld, hidx]
      exact stores

theorem handleCover_nonce {t : Table} {i : Fin maxSessions} {payload : List UInt8} {now : Nat}
    {junk : Bytes 32} {gcmNonce : Bytes gcmNonceLen} {e : Sending}
    (h : (handleCover P t i payload now junk gcmNonce).1 = some e) : e.gcmNonce = gcmNonce := by
  unfold handleCover at h
  split at h
  · split at h
    · cases h
    · split at h
      · cases h
        rfl
      · split at h
        · cases h
        · cases h
          rfl
  · cases h

theorem handleSetup_nonce {t : Table} {i : Fin maxSessions} {payload : List UInt8}
    {gcmNonce : Bytes gcmNonceLen} {e : Sending}
    (h : (handleSetup P t i payload gcmNonce).1 = some e) : e.gcmNonce = gcmNonce := by
  unfold handleSetup verifySetup at h
  split at h
  · cases h
  · split at h
    · split at h
      · cases h
        rfl
      · cases h
    · cases h

theorem flushPending_nonce {t : Table} {i : Fin maxSessions} {now : Nat}
    {gcmNonce : Bytes gcmNonceLen} {e : Sending}
    (h : (flushPending P t i now gcmNonce).1 = some e) : e.gcmNonce = gcmNonce := by
  unfold flushPending at h
  split at h
  · split at h
    · cases h
    · split at h
      · cases h
        rfl
      · cases h
  · cases h

theorem sentOut_nonce {s : GwState} {out : Option Sending × Table} {gcmNonce : Bytes gcmNonceLen}
    (h : ∀ e, out.1 = some e → e.gcmNonce = gcmNonce) {e : Emission}
    (hsent : (s.sentOut out).sent = s.sent ++ [e]) : e.gcmNonce = gcmNonce := by
  have hout := List.append_cancel_left hsent
  obtain ⟨out, t⟩ := out
  cases out with
  | none => cases hout
  | some e' =>
    obtain rfl := (List.cons.inj hout).1
    exact h e' rfl

theorem gwStep_nonce {s : GwState} {a : GwAct} {e : Emission}
    (h : (gwStep P s a).sent = s.sent ++ [e]) : a.nonce = some e.gcmNonce := by
  have hnone : s.sent ≠ s.sent ++ [e] := fun heq => by
    have hlen := congrArg List.length heq
    rw [List.length_append, List.length_singleton] at hlen
    omega
  cases a with
  | extend master role now =>
    simp only [gwStep] at h
    split at h
    · exact absurd h hnone
    · exact absurd h hnone
  | receive pkt now junk gcmNonce =>
    simp only [gwStep] at h
    split at h
    · unfold dispatch at h
      split at h
      · exact congrArg some (sentOut_nonce (fun _ => handleCover_nonce P) h).symm
      · split at h
        · dsimp only at h
          split at h
          · exact congrArg some (sentOut_nonce (fun _ => handleSetup_nonce P) h).symm
          · exact congrArg some (sentOut_nonce (fun _ => handleSetup_nonce P) h).symm
        · split at h
          · exact absurd h hnone
          · exact absurd h hnone
    · exact absurd h hnone
  | reply k resp now =>
    simp only [gwStep] at h
    split at h
    · exact absurd h hnone
    · exact absurd h hnone
  | flush i now gcmNonce =>
    exact congrArg some (sentOut_nonce (fun _ => flushPending_nonce P) h).symm

/-! Both directions. -/

theorem keystreamsUnique_step {s : GwState} (inv : SentInv s) (h : KeystreamsUnique P s)
    (a : GwAct) (hfresh : SendsFresh P s a) : KeystreamsUnique P (gwStep P s a) := by
  unfold KeystreamsUnique
  obtain hsent | ⟨e, hsent, hepoch, hheld⟩ := gwStep_sent P s a
  · rw [hsent]
    exact h
  · have hnext := (inv.step P a).sent e (by rw [hsent]; exact List.mem_concat_self)
    rw [hsent]
    refine List.pairwise_append.mpr ⟨h, List.pairwise_singleton _ _, fun e₀ he₀ e' he' hsame => ?_⟩
    obtain rfl := List.mem_singleton.mp he'
    cases hpacket : e'.packet P with
    | none => exact fun u _ hu => absurd (Sending.uses_none P hpacket ▸ hu) List.not_mem_nil
    | some w =>
      cases hpacket₀ : e₀.packet P with
      | none => exact fun u hu => absurd (Sending.uses_none P hpacket₀ ▸ hu) List.not_mem_nil
      | some w₀ =>
        have hw : (e'.packet P).isSome := hpacket ▸ rfl
        have hw₀ : (e₀.packet P).isSome := hpacket₀ ▸ rfl
        obtain ⟨hblind, hnonce⟩ := hfresh e'.aIdx e'.e2eKey e'.setup ⟨e', hsent, hw, rfl, rfl⟩ hheld
          e₀ he₀ hw₀ hsame.1 (hsame.2.trans hepoch)
        rw [Sending.apart_iff P hw₀ hw, inv.sent e₀ he₀, hnext]
        exact ⟨hblind, fun hkey heq => hnonce hkey (heq ▸ gwStep_nonce P hsent)⟩

theorem sendsFresh_of_unique {s : GwState} (inv : SentInv s) (a : GwAct)
    (h : KeystreamsUnique P (gwStep P s a)) : SendsFresh P s a := by
  rintro i key payload ⟨e, hsent, hw, rfl, rfl⟩ hheld e₀ he₀ hw₀ hidx hepoch₀
  obtain hquiet | ⟨e', hsent', hepoch, hheld'⟩ := gwStep_sent P s a
  · rw [hquiet] at hsent
    exact absurd (congrArg List.length hsent) (by simp)
  · obtain rfl := (List.cons.inj (List.append_cancel_left (hsent.symm.trans hsent'))).1
    have hnext := (inv.step P a).sent e (by rw [hsent]; exact List.mem_concat_self)
    unfold KeystreamsUnique at h
    rw [hsent] at h
    have hapart := (List.pairwise_append.mp h).2.2 e₀ he₀ e (List.mem_singleton_self e)
      ⟨hidx, hepoch₀.trans hepoch.symm⟩
    rw [Sending.apart_iff P hw₀ hw, inv.sent e₀ he₀, hnext] at hapart
    refine ⟨hheld.unique P hheld' ▸ hapart.1, fun hkey heq => hapart.2 hkey ?_⟩
    exact Option.some.inj ((gwStep_nonce P hsent).symm.trans heq)

/-- In every run of the gateway, no two return packets of a session share a key and IV at a layer
exactly if every step that sends one does so under a SETUP that has three new blinding keys, and
with a nonce that is new for the partner's key. -/
theorem return_keystreams_unique_iff (acts : List GwAct) :
    Machine.Along (gwStep P) (KeystreamsUnique P) acts GwState.initial ↔
      Machine.StepsMeet (gwStep P) (SendsFresh P) acts GwState.initial :=
  Machine.along_iff_stepsMeet (gwStep P) (fun s => SentInv s ∧ KeystreamsUnique P s)
    (fun _ inv => inv.2)
    (fun _ a inv hfresh => ⟨inv.1.step P a, keystreamsUnique_step P inv.1 inv.2 a hfresh⟩)
    (fun _ a inv h => sendsFresh_of_unique P inv.1 a h)
    ⟨.initial, by simp [KeystreamsUnique, GwState.initial]⟩

/-! What an observer of one link sees. -/

theorem drop_returnPayload {enc : { c : List UInt8 // c.length ≤ returnPayloadSize - 2 }} {n : Nat}
    (hn : 2 + enc.1.length ≤ n) :
    (returnPayload enc).toList.drop n = List.replicate (returnPayloadSize - n) 0 := by
  unfold returnPayload
  rw [Bytes.drop_write _ hn, Bytes.drop_write _ (by omega), Bytes.zero, List.drop_replicate]

/-- Past both ciphertexts, two packets blinded under the same keys agree on every link. -/
theorem drop_preBlind {recvBlind : Fin nPathHops → AesKey}
    {enc enc' : { c : List UInt8 // c.length ≤ returnPayloadSize - 2 }} {n : Nat}
    (hn : 2 + enc.1.length ≤ n) (hn' : 2 + enc'.1.length ≤ n) (hops : List (Fin nPathHops)) :
    (preBlind P recvBlind hops (returnPayload enc)).toList.drop n
      = (preBlind P recvBlind hops (returnPayload enc')).toList.drop n := by
  induction hops with
  | nil => exact (drop_returnPayload hn).trans (drop_returnPayload hn').symm
  | cons hop hops ih =>
    simp only [preBlind, List.foldr_cons, packetAesCtrXor, packetAesCtrXorIv, Bytes.toList_xor,
      xorList_drop] at ih ⊢
    rw [ih]

/-- Two packets that are blinded under the same keys agree past their ciphertexts. -/
theorem Sending.tails_agree {e e' : Sending} (hblind : e.sess.recvBlind = e'.sess.recvBlind)
    {w w' : WirePacket} (hw : e.packet P = some w) (hw' : e'.packet P = some w') {n : Nat}
    (hn : 2 + (e.resp.length + 1 + gcmOverhead) ≤ n)
    (hn' : 2 + (e'.resp.length + 1 + gcmOverhead) ≤ n) :
    w.toList.drop (returnHeaderSize + n) = w'.toList.drop (returnHeaderSize + n) := by
  have hpacket : ∀ {d : Sending} {v : WirePacket}, d.packet P = some v →
      ∃ enc, enc.1.length = d.resp.length + 1 + gcmOverhead ∧
        v.toList.drop (returnHeaderSize + n)
          = (preBlind P d.sess.recvBlind (List.finRange nPathHops) (returnPayload enc)).toList.drop
              n := by
    intro d v hv
    unfold Sending.packet sendResponseEx at hv
    split at hv
    · cases hv
    · obtain ⟨enc, henc, rfl⟩ := Option.map_eq_some_iff.mp hv
      refine ⟨enc, length_cryptoAesEncrypt P henc, ?_⟩
      rw [Bytes.toList_append, ← List.drop_drop, List.drop_left' d.hdr.length_eq]
  obtain ⟨enc, hlen, htail⟩ := hpacket hw
  obtain ⟨enc', hlen', htail'⟩ := hpacket hw'
  rw [htail, htail', ← hblind]
  exact drop_preBlind P (by omega) (by omega) _

theorem run_sentInv (acts : List GwAct) : SentInv (Machine.run (gwStep P) acts GwState.initial) :=
  Machine.run_keeps (gwStep P) SentInv (fun _ a inv => inv.step P a) acts .initial

/-- Two packets of a run under one SETUP agree past their ciphertexts, on every link. -/
theorem sent_tails_agree {acts : List GwAct} {e e' : Emission}
    (he : e ∈ (Machine.run (gwStep P) acts GwState.initial).sent)
    (he' : e' ∈ (Machine.run (gwStep P) acts GwState.initial).sent) (hsetup : e.setup = e'.setup)
    {w w' : WirePacket} (hw : e.packet P = some w) (hw' : e'.packet P = some w') {n : Nat}
    (hn : 2 + (e.resp.length + 1 + gcmOverhead) ≤ n)
    (hn' : 2 + (e'.resp.length + 1 + gcmOverhead) ≤ n) :
    w.toList.drop (returnHeaderSize + n) = w'.toList.drop (returnHeaderSize + n) := by
  have inv := run_sentInv P acts
  have hblind : e.sess.recvBlind = e'.sess.recvBlind := by
    rw [inv.sent e he, inv.sent e' he', hsetup]
  exact Sending.tails_agree P hblind hw hw' hn hn'

/-- A session is set up, which is acknowledged, and then triggers a cover packet. -/
def coverRun : List GwAct :=
  let receive (payload : List UInt8) (flags : UInt8) (nonce : Nat) : GwAct :=
    .receive (delivered .sample (sampleMaster 0) payload flags) 0 (Bytes.zero _)
      (bigEndian gcmNonceLen nonce)
  [.extend (sampleMaster 0) sessionRoleA 0, .extend (sampleMaster 1) sessionRoleB 0,
    receive (setupPayload .sample (sampleMaster 0) (sampleMaster 1) (Bytes.fit _ [1, 2, 3]))
      pktReal 0,
    receive (Bytes.zero returnHeaderSize).toList pktDummy 1]

def coverEnd : GwState := Machine.run (gwStep .sample) coverRun GwState.initial

/-- Both packets are blinded under the keys of one SETUP, so that their last bytes agree. -/
theorem ack_and_cover_share_keystream :
    (∃ e e', coverEnd.sent = [e, e'] ∧ e.SameSession e' ∧ e.setup = e'.setup ∧
      ∃ w w', e.packet .sample = some w ∧ e'.packet .sample = some w' ∧ w ≠ w' ∧
        w.toList.drop (returnHeaderSize + 63) = w'.toList.drop (returnHeaderSize + 63)) ∧
    ¬ Machine.Along (gwStep .sample) (KeystreamsUnique .sample) coverRun GwState.initial := by
  have hlen : coverEnd.sent.length = 2 := by decide +kernel
  obtain ⟨e, e', hsent⟩ := List.length_eq_two.mp hlen
  have hshared : (coverEnd.sent.map fun e => (e.aIdx, e.epoch, e.setup)).tail
      = (coverEnd.sent.map fun e => (e.aIdx, e.epoch, e.setup)).dropLast := by decide +kernel
  have hresp : coverEnd.sent.map (fun e => e.resp.length) = [8, 32] := by decide +kernel
  have hpackets : (coverEnd.sent.map fun e => (e.packet .sample).isSome) = [true, true] := by
    decide +kernel
  have hdistinct : (coverEnd.sent.map fun e => e.packet .sample).Nodup := by decide +kernel
  have hmem : e ∈ coverEnd.sent ∧ e' ∈ coverEnd.sent := by
    rw [hsent]
    exact ⟨List.mem_cons_self, List.mem_cons_of_mem _ (List.mem_singleton_self e')⟩
  have hunique : Machine.Along (gwStep .sample) (KeystreamsUnique .sample) coverRun
      GwState.initial → KeystreamsUnique .sample coverEnd := fun h => h.last
  unfold KeystreamsUnique at hunique
  rw [hsent] at hshared hresp hpackets hdistinct hunique
  simp only [List.map_cons, List.map_nil, List.tail_cons, List.dropLast_cons_cons,
    List.dropLast_singleton, List.cons.injEq, Prod.mk.injEq, and_true] at hshared hresp hpackets
  obtain ⟨hidx, hepoch, hsetup⟩ := hshared
  obtain ⟨w, hw⟩ := Option.isSome_iff_exists.mp hpackets.1
  obtain ⟨w', hw'⟩ := Option.isSome_iff_exists.mp hpackets.2
  have hsame : e.SameSession e' := ⟨hidx.symm, hepoch.symm⟩
  refine ⟨⟨e, e', hsent, hsame, hsetup.symm, w, w', hw, hw', ?_, ?_⟩, fun h => ?_⟩
  · intro heq
    rw [List.map_cons, hw, heq, ← hw'] at hdistinct
    exact absurd (List.mem_singleton_self _) (List.nodup_cons.mp hdistinct).1
  · exact sent_tails_agree .sample hmem.1 hmem.2 hsetup.symm hw hw'
      (by rw [hresp.1]; decide) (by rw [hresp.2]; decide)
  · have hapart := (List.rel_of_pairwise_cons (hunique h) (List.mem_singleton_self e')) hsame
    have inv := run_sentInv .sample coverRun
    rw [Sending.apart_iff .sample hpackets.1 hpackets.2, inv.sent e hmem.1, inv.sent e' hmem.2,
      hsetup] at hapart
    exact hapart.1 0 rfl

end AnonSecNet.Gateway
