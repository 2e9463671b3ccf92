import AnonSecNet.Client.Packets
import AnonSecNet.Gateway.Relay
import AnonSecNet.Packet.ForwardRoundTrip

/-! `send_app_request` of `sender.c`: the sender's slots, the payload of a request and the
exits before it is sent. -/
namespace AnonSecNet.Sender
open Octets
variable (P : Primitives)

@[simp] abbrev maxOwnedKeys : Nat := 64
@[simp] abbrev maxSendKeyLen : Nat := 63

/-- The characters of a C string. -/
abbrev CString : Type := { k : List UInt8 // 0 ∉ k }

/-- The parts of `g_slots`, `g_slot_send`, `g_slot_recv` and `g_slot_addr` for one slot, and
its counters. -/
structure SendSlot where
  path : SphinxPath
  recvHops : Fin nPathHops → HopSession
  mnzPubkey : Bytes ecPubkeyLen
  mnzAddr : Addr
  addr : Addr
  counters : Client.Counters
  pendingNonce : Bytes slotNonceBytes

abbrev Registry : Type := Keyed.Store CString AesKey maxOwnedKeys

/-- `g_state`, the slots and `g_owned_keys`. -/
structure SenderState where
  ready : Bool
  identityPub : Bytes ecPubkeyLen
  returnAddrs : Fin nPathHops → Addr
  slots : Fin senderResponsePortCount → SendSlot
  ownedKeys : Registry

def SenderState.setSlot (s : SenderState) (i : Fin senderResponsePortCount) (slot : SendSlot) :
    SenderState := { s with slots := Function.update s.slots i slot }

/-- What a request gets from outside: its slot, the random bytes (`none` when drawing them or
what is computed from them fails), and whether the entry node takes the connection. -/
structure SendInput where
  slot : Fin senderResponsePortCount
  headerNonces : Option (Fin nPathHops → Bytes returnNonceBytes)
  requestNonce : Option (Bytes slotNonceBytes)
  packetRandom : Option SphinxRandom
  connects : Bool

/-- How a call that sends something ends: with what it sent, with -1, or in a copy past the end of
a buffer on the stack, behind which nothing is defined. -/
inductive SendOutcome (α : Type*) where
  | sent (a : α)
  | refused
  | overrun
deriving DecidableEq

namespace SendOutcome
variable {α : Type*}

def isSent : SendOutcome α → Bool
  | sent _ => true
  | _ => false

def toOption : SendOutcome α → Option α
  | sent a => some a
  | _ => none

@[simp] theorem isSent_sent (a : α) : (sent a).isSent = true := rfl

@[simp] theorem isSent_refused : (refused : SendOutcome α).isSent = false := rfl

@[simp] theorem isSent_overrun : (overrun : SendOutcome α).isSent = false := rfl

theorem isSent_iff {o : SendOutcome α} : o.isSent = true ↔ ∃ a, o = sent a := by
  cases o with
  | sent a => exact ⟨fun _ => ⟨a, rfl⟩, fun _ => rfl⟩
  | refused | overrun => exact ⟨nofun, nofun⟩

@[simp] theorem toOption_eq_some {o : SendOutcome α} {a : α} :
    o.toOption = some a ↔ o = sent a := by
  cases o with
  | sent b => exact ⟨fun h => congrArg sent (Option.some.inj h), fun h => congrArg toOption h⟩
  | refused | overrun => exact ⟨nofun, nofun⟩

end SendOutcome

/-- The counter is taken before anything can fail. -/
def buildReturnHeaderForSlot (s : SenderState) (i : Fin senderResponsePortCount)
    (nonces : Option (Fin nPathHops → Bytes returnNonceBytes)) :
    Option ReturnHeader × SenderState :=
  match nonces with
  | none =>
    (none, s.setSlot i
      { s.slots i with counters := (Client.nextReturnPktCounter (s.slots i).counters).2 })
  | some nonces =>
    let (hdr, c) := Client.buildReturnHeaderInto P
      ⟨(s.slots i).recvHops, Function.update s.returnAddrs 2 (s.slots i).addr⟩
      (s.slots i).counters nonces
    (some hdr, s.setSlot i { s.slots i with counters := c })

/-- `packet_sphinx_build` on the slot's path and next counter. -/
def buildForSlot (s : SenderState) (i : Fin senderResponsePortCount) (payload : List UInt8)
    (rnd : Option SphinxRandom) : Option WirePacket × SenderState :=
  match rnd with
  | none =>
    (none, s.setSlot i
      { s.slots i with counters := (Client.nextSendPktCounter (s.slots i).counters).2 })
  | some rnd =>
    let (pkt, c) := Client.buildReal P (s.slots i).path payload (s.slots i).counters rnd
    (pkt, s.setSlot i { s.slots i with counters := c })

/-- `[type][nonce][klen][key]`, and `[dlen(2)][data]` when there is data. -/
def appSection (type : RequestType) (nonce : Bytes slotNonceBytes) (key : CString)
    (data : Option (List UInt8)) : Option (List UInt8) :=
  let head := type.code :: (nonce.toList ++ UInt8.ofNat key.1.length :: key.1)
  match data with
  | none => some head
  | some data =>
    if 0xFFFF < data.length ∨ maxInnerPayload < head.length + 2 + data.length then none
    else some (head ++ (bigEndian 2 data.length).toList ++ data)

/-- `[mnz_pubkey][mnz_addr][return_header][app]` in `payload`, nothing when the copy of `app` runs
past its end. The length is tested behind the copy, where the test never fails without that. -/
def requestPayload (slot : SendSlot) (hdr : ReturnHeader) (app : List UInt8) :
    Option (List UInt8) :=
  let payload := slot.mnzPubkey.toList ++ slot.mnzAddr.toList ++ hdr.toList ++ app
  if maxInnerPayload < payload.length then none else some payload

/-- The buffers `app` and `payload` of a request: the first is checked, the second is not. -/
def fillPayload (app : Option (List UInt8)) (payload : List UInt8 → Option (List UInt8)) :
    SendOutcome (List UInt8) :=
  match app with
  | none => .refused
  | some app =>
    match payload app with
    | none => .overrun
    | some payload => .sent payload

def sendAppRequest (s : SenderState) (type : RequestType) (key : CString)
    (data : Option (List UInt8)) (inp : SendInput) : SendOutcome WirePacket × SenderState :=
  if s.ready = false then (.refused, s)
  else
    match buildReturnHeaderForSlot P s inp.slot inp.headerNonces with
    | (none, s) => (.refused, s)
    | (some hdr, s) =>
      if maxSendKeyLen < key.1.length then (.refused, s)
      else
        match inp.requestNonce with
        | none => (.refused, s)
        | some nonce =>
          let s := s.setSlot inp.slot { s.slots inp.slot with pendingNonce := nonce }
          match fillPayload (appSection type nonce key data)
              (requestPayload (s.slots inp.slot) hdr) with
          | .refused => (.refused, s)
          | .overrun => (.overrun, s)
          | .sent payload =>
            match buildForSlot P s inp.slot payload inp.packetRandom with
            | (none, s) => (.refused, s)
            | (some pkt, s) => if inp.connects then (.sent pkt, s) else (.refused, s)

/-- The bytes of the request behind the return header. -/
def appLen (key : CString) (dataLen : Option Nat) : Nat :=
  1 + slotNonceBytes + 1 + key.1.length + dataLen.elim 0 fun d => 2 + d

/-- Nothing stops a request with data of this length. -/
def Sends (s : SenderState) (key : CString) (dataLen : Option Nat) (inp : SendInput) : Prop :=
  s.ready = true ∧ inp.headerNonces.isSome ∧ inp.requestNonce.isSome ∧ inp.packetRandom.isSome ∧
    inp.connects = true ∧ key.1.length ≤ maxSendKeyLen ∧
    returnHdrInPayload + appLen key dataLen ≤ maxInnerPayload

instance (s : SenderState) (key : CString) (dataLen : Option Nat) (inp : SendInput) :
    Decidable (Sends s key dataLen inp) := inferInstanceAs (Decidable (_ ∧ _))

/-- The request fits into `app`, but not behind the routing fields. -/
def TooLong (appLen : Nat) : Prop :=
  appLen ≤ maxInnerPayload ∧ maxInnerPayload < returnHdrInPayload + appLen

instance (appLen : Nat) : Decidable (TooLong appLen) := inferInstanceAs (Decidable (_ ∧ _))

/-- The copy of the request runs past the end of `payload`. -/
def Overruns (s : SenderState) (key : CString) (dataLen : Option Nat) (inp : SendInput) : Prop :=
  s.ready = true ∧ inp.headerNonces.isSome ∧ key.1.length ≤ maxSendKeyLen ∧
    inp.requestNonce.isSome ∧ TooLong (appLen key dataLen)

instance (s : SenderState) (key : CString) (dataLen : Option Nat) (inp : SendInput) :
    Decidable (Overruns s key dataLen inp) := inferInstanceAs (Decidable (_ ∧ _))

/-! What a request leaves alone, and when it is sent. -/

/-- Only the slots have changed. -/
def SameButSlots (s s' : SenderState) : Prop := s' = { s with slots := s'.slots }

theorem sameButSlots_setSlot (s : SenderState) (i : Fin senderResponsePortCount)
    (slot : SendSlot) : SameButSlots s (s.setSlot i slot) := rfl

theorem SameButSlots.trans {s s' s'' : SenderState} (h : SameButSlots s s')
    (h' : SameButSlots s' s'') : SameButSlots s s'' := by
  rw [SameButSlots, h', h]

theorem SameButSlots.ready {s s' : SenderState} (h : SameButSlots s s') : s'.ready = s.ready := by
  rw [h]

theorem SameButSlots.identityPub {s s' : SenderState} (h : SameButSlots s s') :
    s'.identityPub = s.identityPub := by
  rw [h]

theorem SameButSlots.ownedKeys {s s' : SenderState} (h : SameButSlots s s') :
    s'.ownedKeys = s.ownedKeys := by
  rw [h]

theorem buildReturnHeaderForSlot_kept (s : SenderState) (i : Fin senderResponsePortCount)
    (nonces : Option (Fin nPathHops → Bytes returnNonceBytes)) :
    SameButSlots s (buildReturnHeaderForSlot P s i nonces).2 ∧
      (buildReturnHeaderForSlot P s i nonces).1.isSome = nonces.isSome := by
  unfold buildReturnHeaderForSlot
  split <;> exact ⟨sameButSlots_setSlot _ _ _, rfl⟩

theorem packetSphinxBuild_isSome (path : SphinxPath) {payload : List UInt8} (flags : UInt8)
    (ctr : Nat) (rnd : SphinxRandom) (h : payload.length ≤ maxInnerPayload) :
    (packetSphinxBuild P path payload flags ctr rnd).isSome := by
  obtain ⟨sect, -, hsect, -⟩ := e2eSection_fields P path payload flags rnd.gcmNonce h
  unfold packetSphinxBuild packetSphinxBuildEx
  rw [if_neg (by simp), if_neg (by omega), hsect]
  rfl

theorem buildForSlot_kept (s : SenderState) (i : Fin senderResponsePortCount)
    {payload : List UInt8} (rnd : Option SphinxRandom) (h : payload.length ≤ maxInnerPayload) :
    SameButSlots s (buildForSlot P s i payload rnd).2 ∧
      (buildForSlot P s i payload rnd).1.isSome = rnd.isSome := by
  unfold buildForSlot
  split
  · exact ⟨sameButSlots_setSlot _ _ _, rfl⟩
  · exact ⟨sameButSlots_setSlot _ _ _, packetSphinxBuild_isSome P _ _ _ _ h⟩

theorem payload_built (type : RequestType) (nonce : Bytes slotNonceBytes) (key : CString)
    (data : Option (List UInt8)) (slot : SendSlot) (hdr : ReturnHeader) :
    ((appSection type nonce key data).bind (requestPayload slot hdr)).isSome ↔
      returnHdrInPayload + appLen key (data.map List.length) ≤ maxInnerPayload := by
  cases data with
  | none =>
    simp [appSection, requestPayload, appLen]
    omega
  | some data =>
    unfold appSection
    dsimp only
    split
    · rename_i h
      simp [appLen] at h ⊢
      omega
    · rename_i h
      simp [requestPayload, appLen] at h ⊢
      omega

theorem payload_eq {type : RequestType} {nonce : Bytes slotNonceBytes} {key : CString}
    {data : Option (List UInt8)} {slot : SendSlot} {hdr : ReturnHeader} {payload : List UInt8}
    (h : (appSection type nonce key data).bind (requestPayload slot hdr) = some payload) :
    payload.length ≤ maxInnerPayload ∧ (data.getD []).length ≤ 0xFFFF ∧
      payload = slot.mnzPubkey.toList ++ slot.mnzAddr.toList ++ hdr.toList ++
        (type.code :: (nonce.toList ++ UInt8.ofNat key.1.length :: (key.1 ++
          data.elim [] fun d => (bigEndian 2 d.length).toList ++ d))) := by
  obtain ⟨app, happ, hpay⟩ := Option.bind_eq_some_iff.mp h
  unfold requestPayload at hpay
  dsimp only at hpay
  split at hpay
  · cases hpay
  · rename_i hlen
    obtain rfl := Option.some.inj hpay
    refine ⟨Nat.le_of_not_lt hlen, ?_⟩
    unfold appSection at happ
    cases data with
    | none =>
      obtain rfl := Option.some.inj happ
      exact ⟨by simp, by simp⟩
    | some d =>
      dsimp only at happ
      split at happ
      · cases happ
      · rename_i hfits
        obtain rfl := Option.some.inj happ
        refine ⟨by simp at hfits ⊢; omega, by simp⟩

theorem fillPayload_eq_sent {app : Option (List UInt8)} {payload : List UInt8 → Option (List UInt8)}
    {out : List UInt8} : fillPayload app payload = .sent out ↔ app.bind payload = some out := by
  unfold fillPayload
  cases app with
  | none => exact ⟨nofun, nofun⟩
  | some app =>
    rw [Option.bind_some]
    dsimp only
    cases payload app with
    | none => exact ⟨nofun, nofun⟩
    | some out' =>
      exact ⟨fun h => by rw [SendOutcome.sent.inj h], fun h => by rw [Option.some.inj h]⟩

/-- How the two buffers take a request, by its length. -/
theorem fillPayload_cases_of {app : Option (List UInt8)}
    {payload : List UInt8 → Option (List UInt8)} {appLen : Nat}
    (happ : app.isSome ↔ appLen ≤ maxInnerPayload)
    (hbuilt : (app.bind payload).isSome ↔ returnHdrInPayload + appLen ≤ maxInnerPayload) :
    (fillPayload app payload = .refused ∧ maxInnerPayload < appLen) ∨
      (fillPayload app payload = .overrun ∧ TooLong appLen) ∨
      ∃ out, fillPayload app payload = .sent out ∧ app.bind payload = some out ∧
        returnHdrInPayload + appLen ≤ maxInnerPayload := by
  unfold fillPayload TooLong
  cases app with
  | none => exact .inl ⟨rfl, Nat.lt_of_not_le fun h => by simpa using happ.mpr h⟩
  | some app =>
    dsimp only
    rw [Option.bind_some] at hbuilt ⊢
    cases hpay : payload app with
    | none =>
      rw [hpay] at hbuilt
      exact .inr (.inl ⟨rfl, happ.mp rfl, Nat.lt_of_not_le fun h => by simpa using hbuilt.mpr h⟩)
    | some out =>
      rw [hpay] at hbuilt
      exact .inr (.inr ⟨out, rfl, rfl, hbuilt.mp rfl⟩)

theorem fillPayload_cases (type : RequestType) (nonce : Bytes slotNonceBytes) {key : CString}
    (hkey : key.1.length ≤ maxSendKeyLen) (data : Option (List UInt8)) (slot : SendSlot)
    (hdr : ReturnHeader) :
    (fillPayload (appSection type nonce key data) (requestPayload slot hdr) = .refused ∧
        maxInnerPayload < appLen key (data.map List.length)) ∨
      (fillPayload (appSection type nonce key data) (requestPayload slot hdr) = .overrun ∧
        TooLong (appLen key (data.map List.length))) ∨
      ∃ payload, fillPayload (appSection type nonce key data) (requestPayload slot hdr)
          = .sent payload ∧
        (appSection type nonce key data).bind (requestPayload slot hdr) = some payload ∧
        returnHdrInPayload + appLen key (data.map List.length) ≤ maxInnerPayload := by
  have hbuilt := payload_built type nonce key data slot hdr
  have happ : (appSection type nonce key data).isSome ↔
      appLen key (data.map List.length) ≤ maxInnerPayload := by
    unfold appSection appLen
    cases data with
    | none =>
      simp at hkey ⊢
      omega
    | some data =>
      dsimp only
      split
      · rename_i h
        simp at h ⊢
        omega
      · rename_i h
        simp at h ⊢
        omega
  exact fillPayload_cases_of happ hbuilt

/-- The slot has the nonce of its next request. -/
def SenderState.stamp (s : SenderState) (i : Fin senderResponsePortCount)
    (nonce : Bytes slotNonceBytes) : SenderState :=
  s.setSlot i { s.slots i with pendingNonce := nonce }

/-- The request gets as far as its payload, which is filled in this state. -/
structure Fills (s : SenderState) (key : CString) (inp : SendInput) (nonce : Bytes slotNonceBytes)
    (s' : SenderState) : Prop where
  ready : s.ready = true
  header : inp.headerNonces.isSome
  short : key.1.length ≤ maxSendKeyLen
  drawn : inp.requestNonce = some nonce
  state : s' = (buildReturnHeaderForSlot P s inp.slot inp.headerNonces).2.stamp inp.slot nonce

/-- The exits of the call, and the state at each of them. -/
inductive RequestCourse (s : SenderState) (type : RequestType) (key : CString)
    (data : Option (List UInt8)) (inp : SendInput) (out : SendOutcome WirePacket × SenderState) :
    Prop where
  | notReady (ready : s.ready = false) (result : out = (.refused, s))
  | early (ready : s.ready = true)
      (stop : ¬ (inp.headerNonces.isSome ∧ key.1.length ≤ maxSendKeyLen ∧
        inp.requestNonce.isSome))
      (result : out = (.refused, (buildReturnHeaderForSlot P s inp.slot inp.headerNonces).2))
  | refused (nonce : Bytes slotNonceBytes) (s' : SenderState) (fills : Fills P s key inp nonce s')
      (long : maxInnerPayload < appLen key (data.map List.length)) (result : out = (.refused, s'))
  | overrun (nonce : Bytes slotNonceBytes) (s' : SenderState) (fills : Fills P s key inp nonce s')
      (long : TooLong (appLen key (data.map List.length))) (result : out = (.overrun, s'))
  | unsent (nonce : Bytes slotNonceBytes) (s' : SenderState) (fills : Fills P s key inp nonce s')
      (hdr : ReturnHeader) (payload : List UInt8)
      (filled : (appSection type nonce key data).bind (requestPayload (s'.slots inp.slot) hdr)
        = some payload)
      (stop : ¬ (inp.packetRandom.isSome ∧ inp.connects = true))
      (result : out = (.refused, (buildForSlot P s' inp.slot payload inp.packetRandom).2))
  | sent (nonce : Bytes slotNonceBytes) (s' : SenderState) (fills : Fills P s key inp nonce s')
      (hdr : ReturnHeader) (payload : List UInt8)
      (filled : (appSection type nonce key data).bind (requestPayload (s'.slots inp.slot) hdr)
        = some payload)
      (random : inp.packetRandom.isSome) (connects : inp.connects = true) (pkt : WirePacket)
      (built : (buildForSlot P s' inp.slot payload inp.packetRandom).1 = some pkt)
      (result : out = (.sent pkt, (buildForSlot P s' inp.slot payload inp.packetRandom).2))

theorem sendAppRequest_course (s : SenderState) (type : RequestType) (key : CString)
    (data : Option (List UInt8)) (inp : SendInput) :
    RequestCourse P s type key data inp (sendAppRequest P s type key data inp) := by
  by_cases hready : s.ready = false
  · exact .notReady hready (by rw [sendAppRequest, if_pos hready])
  · have hsome := (buildReturnHeaderForSlot_kept P s inp.slot inp.headerNonces).2
    have hran : s.ready = true := by simpa using hready
    cases hbuild : buildReturnHeaderForSlot P s inp.slot inp.headerNonces with
    | mk hdr s₁ =>
      rw [hbuild] at hsome
      cases hdr with
      | none =>
        refine .early hran (by simp [← hsome]) ?_
        simp only [sendAppRequest, if_neg hready, hbuild]
      | some hdr =>
        by_cases hkey : maxSendKeyLen < key.1.length
        · refine .early hran (fun h => absurd h.2.1 (Nat.not_le_of_lt hkey)) ?_
          simp only [sendAppRequest, if_neg hready, hbuild, if_pos hkey]
        · cases hnonce : inp.requestNonce with
          | none =>
            refine .early hran (by simp [hnonce]) ?_
            simp only [sendAppRequest, if_neg hready, hbuild, if_neg hkey, hnonce]
          | some nonce =>
            have hfills : Fills P s key inp nonce (s₁.stamp inp.slot nonce) :=
              ⟨hran, by rw [← hsome]; rfl, Nat.le_of_not_lt hkey, hnonce, by rw [hbuild]⟩
            have hstamp : s₁.setSlot inp.slot { s₁.slots inp.slot with pendingNonce := nonce }
                = s₁.stamp inp.slot nonce := rfl
            simp only [sendAppRequest, if_neg hready, hbuild, if_neg hkey, hnonce, hstamp]
            obtain ⟨hfill, hlong⟩ | ⟨hfill, hlong⟩ | ⟨payload, hfill, hpayload, -⟩ :=
              fillPayload_cases type nonce (Nat.le_of_not_lt hkey) data
                ((s₁.stamp inp.slot nonce).slots inp.slot) hdr
            · exact .refused nonce _ hfills hlong (by simp only [hfill])
            · exact .overrun nonce _ hfills hlong (by simp only [hfill])
            · obtain ⟨-, hpkt⟩ := buildForSlot_kept P (s₁.stamp inp.slot nonce) inp.slot
                inp.packetRandom (payload_eq hpayload).1
              cases hbuilt : buildForSlot P (s₁.stamp inp.slot nonce) inp.slot payload
                  inp.packetRandom with
              | mk pkt s₂ =>
                rw [hbuilt] at hpkt
                cases pkt with
                | none =>
                  exact .unsent nonce _ hfills hdr payload hpayload (by simp [← hpkt])
                    (by simp only [hfill, hbuilt])
                | some pkt =>
                  by_cases hconn : inp.connects = true
                  · exact .sent nonce _ hfills hdr payload hpayload (by rw [← hpkt]; rfl) hconn pkt
                      (by rw [hbuilt]) (by simp only [hfill, hbuilt, if_pos hconn])
                  · exact .unsent nonce _ hfills hdr payload hpayload (fun h => hconn h.2)
                      (by simp only [hfill, hbuilt, if_neg hconn])

theorem Fills.kept {s s' : SenderState} {key : CString} {inp : SendInput}
    {nonce : Bytes slotNonceBytes} (h : Fills P s key inp nonce s') : SameButSlots s s' := by
  rw [h.state]
  exact (buildReturnHeaderForSlot_kept P s inp.slot inp.headerNonces).1.trans
    (sameButSlots_setSlot _ _ _)

/-- What the call leaves alone, and how it ends. -/
structure RequestSpec (s : SenderState) (key : CString) (dataLen : Option Nat) (inp : SendInput)
    (out : SendOutcome WirePacket × SenderState) : Prop where
  kept : SameButSlots s out.2
  sent : out.1.isSent = true ↔ Sends s key dataLen inp
  overrun : out.1 = .overrun ↔ Overruns s key dataLen inp

theorem RequestSpec.refused {s s' : SenderState} {key : CString} {dataLen : Option Nat}
    {inp : SendInput} (hkept : SameButSlots s s') (hsends : ¬ Sends s key dataLen inp)
    (hover : ¬ Overruns s key dataLen inp) : RequestSpec s key dataLen inp (.refused, s') :=
  ⟨hkept, iff_of_false nofun hsends, iff_of_false nofun hover⟩

theorem sendAppRequest_spec (s : SenderState) (type : RequestType) (key : CString)
    (data : Option (List UInt8)) (inp : SendInput) :
    RequestSpec s key (data.map List.length) inp (sendAppRequest P s type key data inp) := by
  cases sendAppRequest_course P s type key data inp with
  | notReady ready result =>
    rw [result]
    exact .refused rfl (by simp [Sends, ready]) (by simp [Overruns, ready])
  | early ready stop result =>
    rw [result]
    exact .refused (buildReturnHeaderForSlot_kept P s inp.slot inp.headerNonces).1
      (fun h => stop ⟨h.2.1, h.2.2.2.2.2.1, h.2.2.1⟩) fun h => stop ⟨h.2.1, h.2.2.1, h.2.2.2.1⟩
  | refused nonce s' fills long result =>
    rw [result]
    refine .refused (fills.kept P) (fun h => ?_)
      fun h => absurd h.2.2.2.2.1 (Nat.not_le_of_lt long)
    have := h.2.2.2.2.2.2
    omega
  | overrun nonce s' fills long result =>
    rw [result]
    exact ⟨fills.kept P,
      iff_of_false nofun fun h => absurd h.2.2.2.2.2.2 (Nat.not_le_of_lt long.2),
      iff_of_true rfl ⟨fills.ready, fills.header, fills.short, by rw [fills.drawn]; rfl, long⟩⟩
  | unsent nonce s' fills hdr payload filled stop result =>
    have hfits := (payload_built type nonce key data _ hdr).mp (by rw [filled]; rfl)
    rw [result]
    exact .refused ((fills.kept P).trans (buildForSlot_kept P _ _ _ (payload_eq filled).1).1)
      (fun h => stop ⟨h.2.2.2.1, h.2.2.2.2.1⟩)
      fun h => absurd hfits (Nat.not_le_of_lt h.2.2.2.2.2)
  | sent nonce s' fills hdr payload filled random connects pkt built result =>
    have hfits := (payload_built type nonce key data _ hdr).mp (by rw [filled]; rfl)
    rw [result]
    exact ⟨(fills.kept P).trans (buildForSlot_kept P _ _ _ (payload_eq filled).1).1,
      iff_of_true rfl ⟨fills.ready, fills.header, by rw [fills.drawn]; rfl, random, connects,
        fills.short, hfits⟩,
      iff_of_false nofun fun h => absurd hfits (Nat.not_le_of_lt h.2.2.2.2.2)⟩

/-! What a request leaves of its slot, and the payload of its packet. -/

/-- What a slot sends on. -/
structure SameSlot (slot slot' : SendSlot) : Prop where
  path : slot'.path = slot.path
  mnzPubkey : slot'.mnzPubkey = slot.mnzPubkey
  mnzAddr : slot'.mnzAddr = slot.mnzAddr

/-- No slot sends on another path. -/
def SameSlots (s s' : SenderState) : Prop := ∀ i, SameSlot (s.slots i) (s'.slots i)

theorem SameSlots.refl (s : SenderState) : SameSlots s s := fun _ => ⟨rfl, rfl, rfl⟩

theorem SameSlots.trans {s s' s'' : SenderState} (h : SameSlots s s') (h' : SameSlots s' s'') :
    SameSlots s s'' := fun i =>
  ⟨(h' i).path.trans (h i).path, (h' i).mnzPubkey.trans (h i).mnzPubkey,
    (h' i).mnzAddr.trans (h i).mnzAddr⟩

theorem sameSlots_setSlot (s : SenderState) (i : Fin senderResponsePortCount) (slot : SendSlot)
    (h : SameSlot (s.slots i) slot) : SameSlots s (s.setSlot i slot) := by
  intro j
  change SameSlot (s.slots j) (Function.update s.slots i slot j)
  by_cases hj : j = i
  · subst hj
    rwa [Function.update_self]
  · rw [Function.update_of_ne hj]
    exact ⟨rfl, rfl, rfl⟩

theorem buildReturnHeaderForSlot_slots (s : SenderState) (i : Fin senderResponsePortCount)
    (nonces : Option (Fin nPathHops → Bytes returnNonceBytes)) :
    SameSlots s (buildReturnHeaderForSlot P s i nonces).2 := by
  unfold buildReturnHeaderForSlot
  split
  · exact sameSlots_setSlot s i _ ⟨rfl, rfl, rfl⟩
  · exact sameSlots_setSlot s i _ ⟨rfl, rfl, rfl⟩

theorem buildForSlot_slots (s : SenderState) (i : Fin senderResponsePortCount)
    (payload : List UInt8) (rnd : Option SphinxRandom) :
    SameSlots s (buildForSlot P s i payload rnd).2 := by
  unfold buildForSlot
  split
  · exact sameSlots_setSlot s i _ ⟨rfl, rfl, rfl⟩
  · exact sameSlots_setSlot s i _ ⟨rfl, rfl, rfl⟩

theorem Fills.slots {s s' : SenderState} {key : CString} {inp : SendInput}
    {nonce : Bytes slotNonceBytes} (h : Fills P s key inp nonce s') : SameSlots s s' := by
  rw [h.state]
  exact (buildReturnHeaderForSlot_slots P s inp.slot inp.headerNonces).trans
    (sameSlots_setSlot _ _ _ ⟨rfl, rfl, rfl⟩)

theorem sendAppRequest_slots (s : SenderState) (type : RequestType) (key : CString)
    (data : Option (List UInt8)) (inp : SendInput) :
    SameSlots s (sendAppRequest P s type key data inp).2 := by
  cases sendAppRequest_course P s type key data inp with
  | notReady ready result =>
    rw [result]
    exact SameSlots.refl s
  | early ready stop result =>
    rw [result]
    exact buildReturnHeaderForSlot_slots P s inp.slot inp.headerNonces
  | refused nonce s' fills long result =>
    rw [result]
    exact fills.slots P
  | overrun nonce s' fills long result =>
    rw [result]
    exact fills.slots P
  | unsent nonce s' fills hdr payload filled stop result =>
    rw [result]
    exact (fills.slots P).trans (buildForSlot_slots P s' inp.slot payload inp.packetRandom)
  | sent nonce s' fills hdr payload filled random connects pkt built result =>
    rw [result]
    exact (fills.slots P).trans (buildForSlot_slots P s' inp.slot payload inp.packetRandom)

theorem buildForSlot_eq_some {s : SenderState} {i : Fin senderResponsePortCount}
    {payload : List UInt8} {rnd : Option SphinxRandom} {pkt : WirePacket}
    (h : (buildForSlot P s i payload rnd).1 = some pkt) :
    ∃ ctr r, packetSphinxBuild P (s.slots i).path payload (pktReal ||| pktDestService) ctr r
      = some pkt := by
  unfold buildForSlot at h
  split at h
  · cases h
  · exact ⟨_, _, h⟩

/-- The payload of a packet that was sent. -/
theorem sendAppRequest_payload {s : SenderState} {type : RequestType} {key : CString}
    {data : Option (List UInt8)} {inp : SendInput} {pkt : WirePacket}
    (h : (sendAppRequest P s type key data inp).1 = .sent pkt) :
    ∃ nonce slot hdr payload ctr rnd, inp.requestNonce = some nonce ∧
      SameSlot (s.slots inp.slot) slot ∧ key.1.length ≤ maxSendKeyLen ∧
      (appSection type nonce key data).bind (requestPayload slot hdr) = some payload ∧
      packetSphinxBuild P slot.path payload (pktReal ||| pktDestService) ctr rnd = some pkt := by
  cases sendAppRequest_course P s type key data inp with
  | notReady ready result | early ready stop result => rw [result] at h; cases h
  | refused nonce s' fills long result | overrun nonce s' fills long result =>
    rw [result] at h
    cases h
  | unsent nonce s' fills hdr payload filled stop result =>
    rw [result] at h
    cases h
  | sent nonce s' fills hdr payload filled random connects pkt' built result =>
    rw [result] at h
    obtain rfl := SendOutcome.sent.inj h
    obtain ⟨ctr, rnd, hbuilt⟩ := buildForSlot_eq_some P built
    exact ⟨nonce, _, hdr, payload, ctr, rnd, fills.drawn, fills.slots P inp.slot, fills.short,
      filled, hbuilt⟩

/-! Which counters a request takes a value from, sent or not. -/

/-- The request gets as far as its packet. -/
def Reaches (s : SenderState) (key : CString) (dataLen : Option Nat) (inp : SendInput) : Prop :=
  s.ready = true ∧ inp.headerNonces.isSome ∧ key.1.length ≤ maxSendKeyLen ∧
    inp.requestNonce.isSome ∧ returnHdrInPayload + appLen key dataLen ≤ maxInnerPayload

instance (s : SenderState) (key : CString) (dataLen : Option Nat) (inp : SendInput) :
    Decidable (Reaches s key dataLen inp) := inferInstanceAs (Decidable (_ ∧ _))

theorem counters_setSlot (s : SenderState) (i j : Fin senderResponsePortCount) (slot : SendSlot) :
    ((s.setSlot i slot).slots j).counters
      = if i = j then slot.counters else (s.slots j).counters := by
  unfold SenderState.setSlot
  by_cases hij : i = j
  · subst hij
    simp
  · simp [hij, Function.update_of_ne (Ne.symm hij)]

theorem counters_buildReturnHeaderForSlot (s : SenderState) (i j : Fin senderResponsePortCount)
    (nonces : Option (Fin nPathHops → Bytes returnNonceBytes)) :
    ((buildReturnHeaderForSlot P s i nonces).2.slots j).counters
      = if i = j then (Client.nextReturnPktCounter (s.slots i).counters).2
        else (s.slots j).counters := by
  unfold buildReturnHeaderForSlot
  split <;> exact counters_setSlot ..

theorem counters_buildForSlot (s : SenderState) (i j : Fin senderResponsePortCount)
    (payload : List UInt8) (rnd : Option SphinxRandom) :
    ((buildForSlot P s i payload rnd).2.slots j).counters
      = if i = j then (Client.nextSendPktCounter (s.slots i).counters).2
        else (s.slots j).counters := by
  unfold buildForSlot
  split <;> exact counters_setSlot ..

theorem Fills.counters {s s' : SenderState} {key : CString} {inp : SendInput}
    {nonce : Bytes slotNonceBytes} (h : Fills P s key inp nonce s')
    (i : Fin senderResponsePortCount) :
    (s'.slots i).counters
      = if inp.slot = i then (Client.nextReturnPktCounter (s.slots i).counters).2
        else (s.slots i).counters := by
  have hheader (j : Fin senderResponsePortCount) :=
    counters_buildReturnHeaderForSlot P s inp.slot j inp.headerNonces
  rw [h.state, SenderState.stamp, counters_setSlot, hheader, hheader, if_pos rfl]
  by_cases hi : inp.slot = i
  · rw [if_pos hi, if_pos hi, hi]
  · rw [if_neg hi, if_neg hi, if_neg hi]

theorem counters_sendAppRequest {s : SenderState} (hready : s.ready = true) (type : RequestType)
    (key : CString) (data : Option (List UInt8)) (inp : SendInput)
    (i : Fin senderResponsePortCount) :
    ((sendAppRequest P s type key data inp).2.slots i).counters
      = if inp.slot = i then
          let c := (Client.nextReturnPktCounter (s.slots inp.slot).counters).2
          if Reaches s key (data.map List.length) inp then (Client.nextSendPktCounter c).2 else c
        else (s.slots i).counters := by
  have hbuilt {nonce s' hdr payload} (fills : Fills P s key inp nonce s')
      (filled : (appSection type nonce key data).bind (requestPayload (s'.slots inp.slot) hdr)
        = some payload) :
      Reaches s key (data.map List.length) inp ∧
        ((buildForSlot P s' inp.slot payload inp.packetRandom).2.slots i).counters
          = if inp.slot = i then (Client.nextSendPktCounter
              (Client.nextReturnPktCounter (s.slots inp.slot).counters).2).2
            else (s.slots i).counters := by
    have hfits := (payload_built type nonce key data _ hdr).mp (by rw [filled]; rfl)
    refine ⟨⟨fills.ready, fills.header, fills.short, by rw [fills.drawn]; rfl, hfits⟩, ?_⟩
    rw [counters_buildForSlot, fills.counters, fills.counters, if_pos rfl]
    by_cases hi : inp.slot = i
    · rw [if_pos hi, if_pos hi]
    · rw [if_neg hi, if_neg hi, if_neg hi]
  have hstays {s' : SenderState} (hstuck : ¬ Reaches s key (data.map List.length) inp)
      (hcounters : (s'.slots i).counters
        = if inp.slot = i then (Client.nextReturnPktCounter (s.slots i).counters).2
          else (s.slots i).counters) :
      (s'.slots i).counters
        = if inp.slot = i then
            let c := (Client.nextReturnPktCounter (s.slots inp.slot).counters).2
            if Reaches s key (data.map List.length) inp then (Client.nextSendPktCounter c).2 else c
          else (s.slots i).counters := by
    rw [hcounters]
    by_cases hi : inp.slot = i
    · rw [if_pos hi, if_pos hi, if_neg hstuck, hi]
    · rw [if_neg hi, if_neg hi]
  cases sendAppRequest_course P s type key data inp with
  | notReady ready result => exact Bool.noConfusion (ready.symm.trans hready)
  | early ready stop result =>
    rw [result]
    refine hstays (fun h => stop ⟨h.2.1, h.2.2.1, h.2.2.2.1⟩) ?_
    dsimp only
    rw [counters_buildReturnHeaderForSlot]
    by_cases hi : inp.slot = i
    · rw [if_pos hi, if_pos hi, hi]
    · rw [if_neg hi, if_neg hi]
  | refused nonce s' fills long result =>
    rw [result]
    refine hstays (fun h => ?_) (fills.counters P i)
    have := h.2.2.2.2
    omega
  | overrun nonce s' fills long result =>
    rw [result]
    exact hstays (fun h => absurd h.2.2.2.2 (Nat.not_le_of_lt long.2)) (fills.counters P i)
  | unsent nonce s' fills hdr payload filled stop result =>
    obtain ⟨hreach, hcounters⟩ := hbuilt fills filled
    rw [result]
    simp only [if_pos hreach]
    exact hcounters
  | sent nonce s' fills hdr payload filled random connects pkt built result =>
    obtain ⟨hreach, hcounters⟩ := hbuilt fills filled
    rw [result]
    simp only [if_pos hreach]
    exact hcounters

theorem sendAppRequest_counters (s : SenderState) (type : RequestType) (key : CString)
    (data : Option (List UInt8)) (inp : SendInput) (i : Fin senderResponsePortCount) :
    ((sendAppRequest P s type key data inp).2.slots i).counters.returnPkt
        = (s.slots i).counters.returnPkt
          + (if s.ready = true ∧ inp.slot = i then 1 else 0) ∧
      ((sendAppRequest P s type key data inp).2.slots i).counters.sendPkt
        = (s.slots i).counters.sendPkt
          + (if Reaches s key (data.map List.length) inp ∧ inp.slot = i then 1 else 0) ∧
      ((sendAppRequest P s type key data inp).2.slots i).counters.sendCoverPkt
        = (s.slots i).counters.sendCoverPkt := by
  by_cases hready : s.ready = false
  · have hstuck : ¬ Reaches s key (data.map List.length) inp :=
      fun h => Bool.noConfusion (hready.symm.trans h.1)
    unfold sendAppRequest
    rw [if_pos hready]
    simp [hready, hstuck]
  · rw [Bool.not_eq_false] at hready
    rw [counters_sendAppRequest P hready]
    by_cases hi : inp.slot = i
    · subst hi
      rw [if_pos rfl]
      by_cases hreach : Reaches s key (data.map List.length) inp
      · simp only [if_pos hreach]
        simp [hready, hreach, Client.nextSendPktCounter, Client.nextReturnPktCounter]
      · simp only [if_neg hreach]
        simp [hready, hreach, Client.nextReturnPktCounter]
    · rw [if_neg hi]
      simp [hi]

/-! What the gateway reads. -/

section
open Gateway

theorem parseData_sent {data : List UInt8} (hdata : data.length ≤ 0xFFFF) :
    parseData ((bigEndian 2 data.length).toList ++ data) = some data := by
  have hvalue : valueList (bigEndian 2 data.length).toList = data.length :=
    value_bigEndian (by omega)
  have hcons : ∃ hi lo, (bigEndian 2 data.length).toList = [hi, lo] := ⟨_, _, rfl⟩
  obtain ⟨hi, lo, hlen⟩ := hcons
  rw [hlen] at hvalue ⊢
  simp [parseData, hvalue]

theorem parseKeyed_sent (type : RequestType) (nonce : Bytes slotNonceBytes) {key : CString}
    (hkey : 0 < key.1.length) (hlong : key.1.length ≤ maxSendKeyLen) {rest data : List UInt8}
    (hdata : (if carriesData type then parseData rest else some []) = some data) :
    parseKeyed type nonce (UInt8.ofNat key.1.length :: (key.1 ++ rest))
      = some ⟨type, nonce, key.1, data⟩ := by
  have hklen : (UInt8.ofNat key.1.length).toNat = key.1.length := by
    simp at hlong ⊢
    omega
  have hread : ¬ (UInt8.ofNat key.1.length = 0 ∨ Cache.maxKeyLen < key.1.length ∨
      (key.1 ++ rest).length < key.1.length) := by
    rintro (h | h | h)
    · have h0 : key.1.length = 0 := hklen.symm.trans (congrArg UInt8.toNat h)
      omega
    · simp at hlong h
      omega
    · simp at h
  unfold parseKeyed
  simp only [hklen]
  rw [if_neg hread, List.drop_left' rfl, List.take_left' rfl, hdata]
  rfl

/-- The data behind the key, when there is none for a type that carries none. -/
theorem readData_sent {type : RequestType} {data : Option (List UInt8)}
    (hcarries : carriesData type = false → data.getD [] = [])
    (hdata : (data.getD []).length ≤ 0xFFFF) :
    (if carriesData type then
        parseData (data.elim [] fun d => (bigEndian 2 d.length).toList ++ d)
      else some []) = some (data.getD []) := by
  split
  · cases data with
    | none => rfl
    | some d => exact parseData_sent hdata
  · rename_i hno
    rw [hcarries (Bool.eq_false_iff.mpr hno)]

/-- The gateway reads the request that `send_app_request` builds. -/
theorem parseRequest_sent {type : RequestType} (hnonce : hasNonce type = true)
    {nonce : Bytes slotNonceBytes} {key : CString} {data : Option (List UInt8)}
    (hcarries : carriesData type = false → data.getD [] = []) (hkey : 0 < key.1.length)
    (hlong : key.1.length ≤ maxSendKeyLen) {slot : SendSlot} {hdr : ReturnHeader}
    {payload : List UInt8}
    (h : (appSection type nonce key data).bind (requestPayload slot hdr) = some payload) :
    ∃ r, parseRequest payload (payload_eq h).1 = some r ∧ r.type = type ∧ r.reqNonce = nonce ∧
      r.key.1 = key.1 ∧ r.data.1 = data.getD [] := by
  obtain ⟨hlen, hdata, heq⟩ := payload_eq h
  have hraw : parseRaw payload = some ⟨type, nonce, key.1, data.getD []⟩ := by
    have hrouting : (slot.mnzPubkey.toList ++ slot.mnzAddr.toList ++ hdr.toList).length
        = returnHdrInPayload := by simp
    unfold parseRaw
    rw [heq, if_neg (by simp; omega), List.drop_left' hrouting]
    simp only [RequestType.ofCode_code, Option.bind_some, parseTyped, hnonce, ↓reduceIte]
    rw [if_neg (by simp only [List.length_append, Bytes.length_eq]; omega), Bytes.fit_append,
      List.drop_left' nonce.length_eq]
    exact parseKeyed_sent type nonce hkey hlong (readData_sent hcarries hdata)
  have hbounds := parseRaw_bounds hlen hraw
  refine ⟨⟨type, nonce, ⟨key.1, hbounds.1⟩, ⟨data.getD [], hbounds.2⟩⟩, ?_, rfl, rfl, rfl, rfl⟩
  exact Option.pmap_eq_some_iff.mpr ⟨_, hbounds, hraw, rfl⟩

end

end AnonSecNet.Sender
