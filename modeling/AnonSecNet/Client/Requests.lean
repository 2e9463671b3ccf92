import AnonSecNet.Sender.Requests

/-! `send_app_request` of `client.c`: the payload of a request and the exits before it is
sent. -/
namespace AnonSecNet.Client
open Octets
open Sender (CString SendOutcome TooLong fillPayload fillPayload_eq_sent maxSendKeyLen)
variable (P : Primitives)

def maxStripeLegs : Nat := 3

theorem maxStripeLegs_pos : 0 < maxStripeLegs := by decide

/-- A sending path, and how many packets were built on it. -/
structure StripeLeg where
  path : SphinxPath
  counter : Nat

/-- The parts of `g_state` and `g_legs` that a request reads, and the return counter. -/
structure RequestState where
  ready : Bool
  mncPubkey : Bytes ecPubkeyLen
  mncAddr : Addr
  route : ReturnRoute
  returnPkt : Nat
  legs : Fin maxStripeLegs → StripeLeg

/-- What a request gets from outside: the leg `stripe_pick_leg` chooses, the random bytes
(`none` when drawing them or what is computed from them fails), and whether the entry node
takes the connection. -/
structure RequestInput where
  leg : Fin maxStripeLegs
  headerNonces : Option (Fin nPathHops → Bytes returnNonceBytes)
  packetRandom : Option SphinxRandom
  connects : Bool

/-- `[type][klen][key]`, and `[dlen(2)][data]` when there is data. -/
def appSection (type : RequestType) (key : CString) (data : Option (List UInt8)) :
    Option (List UInt8) :=
  let head := type.code :: UInt8.ofNat key.1.length :: key.1
  match data with
  | none => some head
  | some data =>
    if 0xFFFF < data.length ∨ maxInnerPayload < head.length + 2 + data.length then none
    else some (head ++ (bigEndian 2 data.length).toList ++ data)

/-- `[mnc_pubkey][mnc_addr][return_header][app]`, with the same late test of the length as in the
sender. -/
def requestPayload (s : RequestState) (hdr : ReturnHeader) (app : List UInt8) :
    Option (List UInt8) :=
  let payload := s.mncPubkey.toList ++ s.mncAddr.toList ++ hdr.toList ++ app
  if maxInnerPayload < payload.length then none else some payload

def nextLegCounter (s : RequestState) (leg : Fin maxStripeLegs) : Nat × RequestState :=
  let used : StripeLeg := s.legs leg
  (longValue used.counter,
    { s with legs := Function.update s.legs leg ⟨used.path, used.counter + 1⟩ })

/-- The return counter is taken before anything can fail. -/
def buildFreshReturnHeader (s : RequestState)
    (nonces : Option (Fin nPathHops → Bytes returnNonceBytes)) :
    Option ReturnHeader × RequestState :=
  let s' := { s with returnPkt := s.returnPkt + 1 }
  (nonces.map fun nonces => (buildReturnHeaderInto P s.route ⟨0, 0, s.returnPkt⟩ nonces).1, s')

def sendAppRequest (s : RequestState) (type : RequestType) (key : CString)
    (data : Option (List UInt8)) (inp : RequestInput) : SendOutcome WirePacket × RequestState :=
  if s.ready = false then (.refused, s)
  else
    match buildFreshReturnHeader P s inp.headerNonces with
    | (none, s) => (.refused, s)
    | (some hdr, s) =>
      if maxSendKeyLen < key.1.length then (.refused, s)
      else
        match fillPayload (appSection type key data) (requestPayload s hdr) with
        | .refused => (.refused, s)
        | .overrun => (.overrun, s)
        | .sent payload =>
          let (ctr, s) := nextLegCounter s inp.leg
          match inp.packetRandom.bind (packetSphinxBuild P (s.legs inp.leg).path payload
              (pktReal ||| pktDestService) ctr) with
          | none => (.refused, s)
          | some pkt => if inp.connects then (.sent pkt, s) else (.refused, s)

/-! When it is sent, and what the gateway reads. -/

/-- Nothing but the length of the request can stop it. -/
def Able (s : RequestState) (inp : RequestInput) : Prop :=
  s.ready = true ∧ inp.headerNonces.isSome ∧ inp.packetRandom.isSome ∧ inp.connects = true

section
variable {type : RequestType} {key : CString} {data : Option (List UInt8)} {s : RequestState}
  {hdr : ReturnHeader}

/-- The bytes of the request behind the return header. -/
def appLen (key : CString) (dataLen : Option Nat) : Nat :=
  2 + key.1.length + dataLen.elim 0 fun d => 2 + d

theorem payload_built (type : RequestType) (key : CString) (data : Option (List UInt8))
    (s : RequestState) (hdr : ReturnHeader) :
    ((appSection type key data).bind (requestPayload s hdr)).isSome ↔
      returnHdrInPayload + appLen key (data.map List.length) ≤ maxInnerPayload := by
  cases data with
  | none =>
    simp [appSection, requestPayload, appLen]
    omega
  | some data =>
    unfold appSection
    dsimp only
    split
    · rename_i h
      simp [appLen] at h ⊢
      omega
    · rename_i h
      simp [requestPayload, appLen] at h ⊢
      omega

theorem payload_eq {payload : List UInt8}
    (h : (appSection type key data).bind (requestPayload s hdr) = some payload) :
    payload.length ≤ maxInnerPayload ∧ (data.getD []).length ≤ 0xFFFF ∧
      payload = s.mncPubkey.toList ++ s.mncAddr.toList ++ hdr.toList ++
        (type.code :: UInt8.ofNat key.1.length :: (key.1 ++
          data.elim [] fun d => (bigEndian 2 d.length).toList ++ d)) := by
  obtain ⟨app, happ, hpay⟩ := Option.bind_eq_some_iff.mp h
  unfold requestPayload at hpay
  dsimp only at hpay
  split at hpay
  · cases hpay
  · rename_i hlen
    obtain rfl := Option.some.inj hpay
    refine ⟨Nat.le_of_not_lt hlen, ?_⟩
    unfold appSection at happ
    cases data with
    | none =>
      obtain rfl := Option.some.inj happ
      exact ⟨by simp, by simp⟩
    | some d =>
      dsimp only at happ
      split at happ
      · cases happ
      · rename_i hfits
        obtain rfl := Option.some.inj happ
        refine ⟨by simp at hfits ⊢; omega, by simp⟩

/-- How the two buffers take a request whose key is short enough. -/
theorem fillPayload_cases (type : RequestType) {key : CString}
    (hkey : key.1.length ≤ maxSendKeyLen) (data : Option (List UInt8)) (s : RequestState)
    (hdr : ReturnHeader) :
    (fillPayload (appSection type key data) (requestPayload s hdr) = .refused ∧
        maxInnerPayload < appLen key (data.map List.length)) ∨
      (fillPayload (appSection type key data) (requestPayload s hdr) = .overrun ∧
        TooLong (appLen key (data.map List.length))) ∨
      ∃ payload, fillPayload (appSection type key data) (requestPayload s hdr) = .sent payload ∧
        (appSection type key data).bind (requestPayload s hdr) = some payload ∧
        returnHdrInPayload + appLen key (data.map List.length) ≤ maxInnerPayload := by
  have hbuilt := payload_built type key data s hdr
  have happ : (appSection type key data).isSome ↔
      appLen key (data.map List.length) ≤ maxInnerPayload := by
    unfold appSection appLen
    cases data with
    | none =>
      simp at hkey ⊢
      omega
    | some data =>
      dsimp only
      split
      · rename_i h
        simp at h ⊢
        omega
      · rename_i h
        simp at h ⊢
        omega
  exact Sender.fillPayload_cases_of happ hbuilt

/-- The copy of the request runs past the end of `payload`. -/
def Overruns (s : RequestState) (key : CString) (dataLen : Option Nat) (inp : RequestInput) :
    Prop :=
  s.ready = true ∧ inp.headerNonces.isSome ∧ key.1.length ≤ maxSendKeyLen ∧
    TooLong (appLen key dataLen)

instance (s : RequestState) (key : CString) (dataLen : Option Nat) (inp : RequestInput) :
    Decidable (Overruns s key dataLen inp) := inferInstanceAs (Decidable (_ ∧ _))

/-- What the call does: it returns early, the copy of the request overruns the buffer, or its packet
is sent. -/
theorem sendAppRequest_cases (type : RequestType) (key : CString) (data : Option (List UInt8))
    (s : RequestState) (inp : RequestInput) :
    ((sendAppRequest P s type key data inp).1 = .refused ∧
        ¬ (Able s inp ∧ key.1.length ≤ maxSendKeyLen ∧
          returnHdrInPayload + appLen key (data.map List.length) ≤ maxInnerPayload) ∧
        ¬ Overruns s key (data.map List.length) inp) ∨
      ((sendAppRequest P s type key data inp).1 = .overrun ∧
        Overruns s key (data.map List.length) inp) ∨
      ∃ hdr payload ctr rnd pkt, (sendAppRequest P s type key data inp).1 = .sent pkt ∧
        Able s inp ∧ key.1.length ≤ maxSendKeyLen ∧
        (appSection type key data).bind (requestPayload s hdr) = some payload ∧
        packetSphinxBuild P (s.legs inp.leg).path payload (pktReal ||| pktDestService) ctr rnd
          = some pkt := by
  unfold sendAppRequest Able Overruns
  split
  · rename_i hready
    exact .inl ⟨rfl, by simp [hready], by simp [hready]⟩
  · rename_i hready
    cases hnonces : inp.headerNonces with
    | none => exact .inl ⟨rfl, by simp, by simp⟩
    | some nonces =>
      simp only [buildFreshReturnHeader, Option.map_some]
      generalize hs₁ : ({ s with returnPkt := s.returnPkt + 1 } : RequestState) = s₁
      generalize (buildReturnHeaderInto P s.route ⟨0, 0, s.returnPkt⟩ nonces).1 = hdr
      split
      · rename_i hkey
        exact .inl ⟨rfl, by omega, fun h => absurd h.2.2.1 (Nat.not_le_of_lt hkey)⟩
      · rename_i hkey
        obtain ⟨hfill, hlong⟩ | ⟨hfill, hlong⟩ | ⟨payload, hfill, hpayload, hfits⟩ :=
          fillPayload_cases type (Nat.le_of_not_lt hkey) data s₁ hdr
        · rw [hfill]
          refine .inl ⟨rfl, by omega, fun h => absurd h.2.2.2.1 (Nat.not_le_of_lt hlong)⟩
        · rw [hfill]
          exact .inr (.inl ⟨rfl, by simpa using hready, rfl, Nat.le_of_not_lt hkey, hlong⟩)
        · have hnotOver : ¬ TooLong (appLen key (data.map List.length)) :=
            fun h => absurd hfits (Nat.not_le_of_lt h.2)
          have hpath : ((nextLegCounter s₁ inp.leg).2.legs inp.leg).path
              = (s.legs inp.leg).path := by
            simp [nextLegCounter, ← hs₁]
          simp only [hfill, hpath]
          cases hrnd : inp.packetRandom with
          | none => exact .inl ⟨rfl, by simp, fun h => hnotOver h.2.2.2⟩
          | some rnd =>
            obtain ⟨pkt, hpkt⟩ := Option.isSome_iff_exists.mp (Sender.packetSphinxBuild_isSome P
              (s.legs inp.leg).path (pktReal ||| pktDestService)
              (nextLegCounter s₁ inp.leg).1 rnd (payload_eq hpayload).1)
            simp only [Option.bind_some, hpkt]
            by_cases hconn : inp.connects = true
            · rw [if_pos hconn]
              subst hs₁
              exact .inr (.inr ⟨hdr, payload, _, rnd, pkt, rfl,
                ⟨by simpa using hready, rfl, rfl, hconn⟩, by omega, hpayload, hpkt⟩)
            · rw [if_neg hconn]
              exact .inl ⟨rfl, fun h => hconn h.1.2.2.2, fun h => hnotOver h.2.2.2⟩

/-- Only counters have changed. -/
structure SameRoutes (s s' : RequestState) : Prop where
  ready : s'.ready = s.ready
  mncPubkey : s'.mncPubkey = s.mncPubkey
  mncAddr : s'.mncAddr = s.mncAddr
  path : ∀ i, (s'.legs i).path = (s.legs i).path

theorem SameRoutes.trans {s s' s'' : RequestState} (h : SameRoutes s s') (h' : SameRoutes s' s'') :
    SameRoutes s s'' :=
  ⟨h'.ready.trans h.ready, h'.mncPubkey.trans h.mncPubkey, h'.mncAddr.trans h.mncAddr,
    fun i => (h'.path i).trans (h.path i)⟩

theorem nextLegCounter_kept (s : RequestState) (leg : Fin maxStripeLegs) :
    SameRoutes s (nextLegCounter s leg).2 := by
  refine ⟨rfl, rfl, rfl, fun i => ?_⟩
  unfold nextLegCounter
  by_cases hi : i = leg
  · subst hi
    simp only [Function.update_self]
  · simp only [Function.update_of_ne hi]

/-- The request gets as far as its packet. -/
def Reaches (s : RequestState) (key : CString) (dataLen : Option Nat) (inp : RequestInput) : Prop :=
  s.ready = true ∧ inp.headerNonces.isSome ∧ key.1.length ≤ maxSendKeyLen ∧
    returnHdrInPayload + appLen key dataLen ≤ maxInnerPayload

instance (s : RequestState) (key : CString) (dataLen : Option Nat) (inp : RequestInput) :
    Decidable (Reaches s key dataLen inp) := inferInstanceAs (Decidable (_ ∧ _))

theorem counter_nextLegCounter (s : RequestState) (leg i : Fin maxStripeLegs) :
    ((nextLegCounter s leg).2.legs i).counter
      = (s.legs i).counter + if leg = i then 1 else 0 := by
  unfold nextLegCounter
  by_cases hi : leg = i
  · subst hi
    simp
  · simp [hi, Function.update_of_ne (Ne.symm hi)]

/-- What a request leaves behind, sent or not. -/
theorem sendAppRequest_state (s : RequestState) (type : RequestType) (key : CString)
    (data : Option (List UInt8)) (inp : RequestInput) :
    (sendAppRequest P s type key data inp).2
      = if s.ready = false then s
        else if Reaches s key (data.map List.length) inp then
          (nextLegCounter { s with returnPkt := s.returnPkt + 1 } inp.leg).2
        else { s with returnPkt := s.returnPkt + 1 } := by
  unfold sendAppRequest
  by_cases hready : s.ready = false
  · rw [if_pos hready, if_pos hready]
  · rw [if_neg hready, if_neg hready]
    rw [Bool.not_eq_false] at hready
    cases hnonces : inp.headerNonces with
    | none => rw [if_neg (fun h => by simpa [hnonces] using h.2.1)]; rfl
    | some nonces =>
      simp only [buildFreshReturnHeader, Option.map_some]
      generalize (buildReturnHeaderInto P s.route ⟨0, 0, s.returnPkt⟩ nonces).1 = hdr
      by_cases hkey : maxSendKeyLen < key.1.length
      · rw [if_pos hkey, if_neg (fun h => absurd h.2.2.1 (Nat.not_le_of_lt hkey))]
      · rw [if_neg hkey]
        obtain ⟨hfill, hlong⟩ | ⟨hfill, hlong⟩ | ⟨payload, hfill, -, hfits⟩ :=
          fillPayload_cases type (Nat.le_of_not_lt hkey) data
            { s with returnPkt := s.returnPkt + 1 } hdr
        · rw [hfill, if_neg (fun h => by have := h.2.2.2; omega)]
        · rw [hfill, if_neg (fun h => absurd h.2.2.2 (Nat.not_le_of_lt hlong.2))]
        · rw [hfill, if_pos ⟨hready, by rw [hnonces]; rfl, Nat.le_of_not_lt hkey, hfits⟩]
          dsimp only
          split
          · rfl
          · split <;> rfl

theorem sendAppRequest_kept (s : RequestState) (type : RequestType) (key : CString)
    (data : Option (List UInt8)) (inp : RequestInput) :
    SameRoutes s (sendAppRequest P s type key data inp).2 := by
  have hcounted : SameRoutes s { s with returnPkt := s.returnPkt + 1 } :=
    ⟨rfl, rfl, rfl, fun _ => rfl⟩
  rw [sendAppRequest_state]
  split
  · exact ⟨rfl, rfl, rfl, fun _ => rfl⟩
  · split
    · exact hcounted.trans (nextLegCounter_kept _ inp.leg)
    · exact hcounted

/-- Which counters a request takes a value from, sent or not. -/
theorem sendAppRequest_counters (s : RequestState) (type : RequestType) (key : CString)
    (data : Option (List UInt8)) (inp : RequestInput) :
    (sendAppRequest P s type key data inp).2.returnPkt
        = s.returnPkt + (if s.ready = true then 1 else 0) ∧
      ∀ i, ((sendAppRequest P s type key data inp).2.legs i).counter
        = (s.legs i).counter
          + if Reaches s key (data.map List.length) inp ∧ inp.leg = i then 1 else 0 := by
  rw [sendAppRequest_state]
  by_cases hready : s.ready = false
  · have hstuck : ¬ Reaches s key (data.map List.length) inp :=
      fun h => Bool.noConfusion (hready.symm.trans h.1)
    rw [if_pos hready]
    simp [hready, hstuck]
  · rw [if_neg hready]
    rw [Bool.not_eq_false] at hready
    by_cases hreach : Reaches s key (data.map List.length) inp
    · rw [if_pos hreach]
      simp only [hreach, true_and]
      exact ⟨by rw [if_pos hready]; rfl, fun i => counter_nextLegCounter _ inp.leg i⟩
    · rw [if_neg hreach]
      simp [hready, hreach]

/-- A request is sent exactly if its key and its payload are short enough, and it overruns the
buffer if only the payload is not. -/
theorem sendAppRequest_spec (s : RequestState) (inp : RequestInput) :
    ((sendAppRequest P s type key data inp).1.isSent = true ↔
      Able s inp ∧ key.1.length ≤ maxSendKeyLen ∧
        returnHdrInPayload + appLen key (data.map List.length) ≤ maxInnerPayload) ∧
      ((sendAppRequest P s type key data inp).1 = .overrun ↔
        Overruns s key (data.map List.length) inp) := by
  rcases sendAppRequest_cases P type key data s inp with
    ⟨hout, hno, hcopy⟩ | ⟨hout, hcopy⟩ |
      ⟨hdr, payload, ctr, rnd, pkt, hout, hable, hkey, hpayload, -⟩
  · rw [hout]
    exact ⟨iff_of_false nofun hno, iff_of_false nofun hcopy⟩
  · rw [hout]
    exact ⟨iff_of_false nofun fun h => absurd h.2.2 (Nat.not_le_of_lt hcopy.2.2.2.2),
      iff_of_true rfl hcopy⟩
  · rw [hout]
    have hfits := (payload_built type key data s hdr).mp (by rw [hpayload]; rfl)
    exact ⟨iff_of_true rfl ⟨hable, hkey, hfits⟩,
      iff_of_false nofun fun h => absurd hfits (Nat.not_le_of_lt h.2.2.2.2)⟩

open Gateway in
/-- The gateway reads the request that `send_app_request` builds. -/
theorem parseRequest_sent (hnonce : hasNonce type = false)
    (hcarries : carriesData type = false → data.getD [] = []) (hkey : 0 < key.1.length)
    (hlong : key.1.length ≤ maxSendKeyLen) {payload : List UInt8}
    (h : (appSection type key data).bind (requestPayload s hdr) = some payload) :
    ∃ r, parseRequest payload (payload_eq h).1 = some r ∧ r.type = type ∧ r.key.1 = key.1 ∧
      r.data.1 = data.getD [] := by
  obtain ⟨hlen, hdata, heq⟩ := payload_eq h
  have hraw : parseRaw payload = some ⟨type, Bytes.zero _, key.1, data.getD []⟩ := by
    have hrouting : (s.mncPubkey.toList ++ s.mncAddr.toList ++ hdr.toList).length
        = returnHdrInPayload := by simp
    unfold parseRaw
    rw [heq, if_neg (by simp; omega), List.drop_left' hrouting]
    simp only [RequestType.ofCode_code, Option.bind_some, parseTyped, hnonce,
      Bool.false_eq_true, ↓reduceIte]
    exact Sender.parseKeyed_sent type _ hkey hlong (Sender.readData_sent hcarries hdata)
  have hbounds := parseRaw_bounds hlen hraw
  refine ⟨⟨type, Bytes.zero _, ⟨key.1, hbounds.1⟩, ⟨data.getD [], hbounds.2⟩⟩, ?_, rfl, rfl, rfl⟩
  exact Option.pmap_eq_some_iff.mpr ⟨_, hbounds, hraw, rfl⟩

end

end AnonSecNet.Client
