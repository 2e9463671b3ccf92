import AnonSecNet.Client.Requests
import AnonSecNet.Gateway.ReplyDelivery
import AnonSecNet.KeyExchange
import AnonSecNet.MixNode.CoverView

/-! The way of a request over the relays to the gateway, what the gateway reads from it, and
the way of the answer back to the client. -/
namespace AnonSecNet.Retrieval
open Octets Gateway
open MixNode (packetAtHop)
variable (P : Primitives)

/-- What `handle_connection` of the gateway keeps of a request that it relays. -/
structure Relaying where
  request : Request
  app : AppRequest
  table : Gateway.Table

/-- A cover trigger and a SETUP are not relayed. -/
def takeRequest (t : Gateway.Table) (now : Nat) (pkt : WirePacket) : Option Relaying :=
  match findASession P t pkt now with
  | (none, _) => none
  | (some (i, payload, flags), t) =>
    if isDummy flags ∨ payload.head? = some typeSetup then none
    else
      match beginRequest P t i payload with
      | (none, _) => none
      | (some request, t) =>
        if h : payload.length ≤ maxInnerPayload then
          (parseRequest payload h).map fun app => ⟨request, app, t⟩
        else none

/-- What one packet meets: the random padding of the relays, the table of the gateway and the
time it arrives there. -/
structure Trip where
  pads : Fin nPathHops → WirePacket
  table : Gateway.Table
  now : Nat

/-- A packet on its path to the gateway. -/
def arrive (path : SphinxPath) (trip : Trip) (pkt : WirePacket) : Option Relaying :=
  (packetAtHop P path trip.pads pkt nPathHops).bind (takeRequest P trip.table trip.now)

/-- The gateway holds the two sessions of a requester, `a` for sending and `b` for receiving,
and no other sending session has its hint. -/
structure Held (t : Gateway.Table) (a b : Fin maxSessions) (path : SphinxPath) (addr : Addr) :
    Prop where
  live : (t a).inUse = true
  role : (t a).role = sessionRoleA
  setUp : (t a).setupDone = true
  key : (t a).e2eKey = path.e2eKey
  hint : (t a).sgHint = path.sgHint
  alone : ∀ i, i ≠ a → (t i).inUse = true → (t i).role = sessionRoleA → (t i).sgHint ≠ path.sgHint
  port : addrPort (t a).mncAddr = addrPort addr
  partner : partnerOf P (bindings t) a = some b

/-- A payload behind the routing fields of a requester: its public key and its address. -/
def Routed (pub : PubKey) (addr : Addr) (type : RequestType) (payload : List UInt8) : Prop :=
  ∃ (hdr : ReturnHeader) (rest : List UInt8),
    payload = pub.toList ++ addr.toList ++ hdr.toList ++ type.code :: rest

/-- An uncompressed point and a loopback address. -/
def RoutingFields (pub : PubKey) (addr : Addr) : Prop :=
  pub.byte 0 ecPubkeyLen_pos = 0x04 ∧ addr.byte 0 = 127

/-! Over the relays. -/

theorem packetAtHop_of_build {path : SphinxPath} {payload : List UInt8} {flags : UInt8}
    {ctr : Nat} {rnd : SphinxRandom} {pkt : WirePacket}
    (hbuild : packetSphinxBuild P path payload flags ctr rnd = some pkt)
    (hlen : payload.length ≤ maxInnerPayload) (pads : Fin nPathHops → WirePacket) :
    ∃ out, packetAtHop P path pads pkt nPathHops = some out ∧
      out.read (wirePacketSize - sgHintBytes) sgHintBytes = path.sgHint ∧
      packetSphinxUnwrap P out path.e2eKey = some (payload, flags) := by
  obtain ⟨sect, -, hsect, -⟩ := e2eSection_fields P path payload flags rnd.gcmNonce hlen
  obtain ⟨p₀, hp₀, c₀⟩ := carries_build P ctr path payload flags (-1) rnd sect (by simp) hlen hsect
  obtain rfl : p₀ = pkt := Option.some.inj (hp₀.symm.trans hbuild)
  have hreach : ∀ k ≤ nPathHops, (packetAtHop P path pads p₀ k).isSome := by
    intro k hk
    induction k with
    | zero => rfl
    | succ k ih =>
      obtain ⟨q, hq⟩ := Option.isSome_iff_exists.mp (ih (by omega))
      have hcar := MixNode.carries_atHop P path ctr (-1) rnd c₀ hq
      rw [MixNode.drop_finRange (show k < nPathHops by omega)] at hcar
      obtain ⟨out, hout, -⟩ := hcar.peel P ctr path (-1) rnd sect (by simp at hk ⊢; omega)
        (pads ⟨k, by omega⟩)
      rw [packetAtHop, hq, Option.bind_some, dif_pos (show k < nPathHops by omega), hout]
      rfl
  obtain ⟨out, hout⟩ := Option.isSome_iff_exists.mp (hreach nPathHops le_rfl)
  have hfinal := (MixNode.section_of_build P path ctr (-1) rnd hbuild hout).2
  exact ⟨out, hout, MixNode.sgHint_of_build P path ctr (-1) rnd hbuild hout,
    packetSphinxUnwrap_section P hlen hfinal rfl⟩

/-! At the gateway. -/

/-- Where the gateway looks into the payload of a request. -/
theorem Routed.fields {pub : PubKey} {addr : Addr} {type : RequestType} {payload : List UInt8}
    (hrouted : Routed pub addr type payload) (hfields : RoutingFields pub addr) :
    (∃ rest, payload = 0x04 :: rest) ∧
      (∃ rest, payload.drop returnHdrInPayload = type.code :: rest) ∧
      payload.getD ecPubkeyLen 0 = 127 ∧ Bytes.fit addrBytes (payload.drop ecPubkeyLen) = addr ∧
      returnHdrInPayload + 1 ≤ payload.length := by
  obtain ⟨hdr, rest, rfl⟩ := hrouted
  have hhead : ∀ {n : Nat} (b : Bytes n) (h : 0 < n), ∃ tl, b.toList = b.byte 0 h :: tl := by
    intro n b h
    obtain ⟨l, hl⟩ := b
    cases l with
    | nil => exact absurd hl (by simp; omega)
    | cons x tl => exact ⟨tl, rfl⟩
  obtain ⟨ptl, hpub⟩ := hhead pub (by decide)
  obtain ⟨atl, haddr⟩ := hhead addr (by decide)
  rw [hfields.1] at hpub
  rw [hfields.2] at haddr
  refine ⟨⟨_, by rw [hpub]; rfl⟩, ⟨rest, List.drop_left' (by simp)⟩, ?_, ?_, by simp; omega⟩
  · rw [List.append_assoc, List.append_assoc, List.getD_eq_getElem?_getD,
      List.getElem?_append_right (by simp), haddr]
    simp
  · rw [List.append_assoc, List.append_assoc, List.drop_left' pub.length_eq, Bytes.fit_append]

theorem packetType_routed {pub : PubKey} {addr : Addr} {type : RequestType} {payload : List UInt8}
    (hrouted : Routed pub addr type payload) (hfields : RoutingFields pub addr) :
    packetType payload = some type.code ∧ type.code ≠ typeSetup := by
  obtain ⟨⟨tl, hcons⟩, ⟨rest, hdrop⟩, -⟩ := hrouted.fields hfields
  have hknown : type.code ∈ [typeGet, typePut, typeHandshakeInit, typeHandshakePoll,
      typeHeartbeat, typeHandshakeRespond] ∧ type.code ≠ typeSetup := by
    cases type <;> decide
  refine ⟨?_, hknown.2⟩
  rw [hcons] at hdrop ⊢
  unfold packetType
  rw [hdrop]
  simp [hknown.1, typeSetup]

section
variable {P} {t : Gateway.Table} {a b : Fin maxSessions} {path : SphinxPath} {pub : PubKey}
  {addr : Addr} {type : RequestType} {payload : List UInt8}

theorem Held.accepts (h : Held P t a b path addr) (hrouted : Routed pub addr type payload)
    (hfields : RoutingFields pub addr) : accepts P t a payload pktReal = true := by
  obtain ⟨-, -, hloop, haddr, -⟩ := hrouted.fields hfields
  obtain ⟨htype, hsetup⟩ := packetType_routed hrouted hfields
  unfold Gateway.accepts
  rw [if_neg (by decide), htype]
  simp only [hsetup, ↓reduceIte, hloop, decide_true, h.setUp, haddr, h.port, Bool.and_self]

/-- The packet is found to be the requester's. -/
theorem Held.find (h : Held P t a b path addr) (hrouted : Routed pub addr type payload)
    (hfields : RoutingFields pub addr) {pkt : WirePacket}
    (hhint : pkt.read (wirePacketSize - sgHintBytes) sgHintBytes = path.sgHint)
    (hunwrap : packetSphinxUnwrap P pkt path.e2eKey = some (payload, pktReal)) (now : Nat) :
    findASession P t pkt now = (some (a, payload, pktReal),
      pin (Function.update t a { t a with lastActiveMs := now }) a) := by
  refine findASession_of_alone P h.live h.role (h.hint.trans hhint.symm) ?_ ?_
    (h.accepts hrouted hfields) now
  · rw [h.hint]
    exact h.alone
  · rw [h.key]
    exact hunwrap

/-- No key of a session differs. -/
def SameKeys (t t' : Gateway.Table) : Prop :=
  ∀ i, (t' i).e2eKey = (t i).e2eKey ∧ (t' i).recvBlind = (t i).recvBlind

theorem sameKeys_update (t : Gateway.Table) (i : Fin maxSessions) {sess : SgSession}
    (h : sess.e2eKey = (t i).e2eKey ∧ sess.recvBlind = (t i).recvBlind) :
    SameKeys t (Function.update t i sess) := by
  intro j
  by_cases hj : j = i
  · subst hj
    rwa [Function.update_self]
  · rw [Function.update_of_ne hj]
    exact ⟨rfl, rfl⟩

theorem sameKeys_pin (t : Gateway.Table) (i : Fin maxSessions) : SameKeys t (pin t i) :=
  sameKeys_update t i ⟨rfl, rfl⟩

theorem SameKeys.trans {t t' t'' : Gateway.Table} (h : SameKeys t t') (h' : SameKeys t' t'') :
    SameKeys t t'' := fun i => ⟨(h' i).1.trans (h i).1, (h' i).2.trans (h i).2⟩

/-- The found session's partner does not depend on time stamps and pins. -/
theorem Held.begin (h : Held P t a b path addr) (hlen : returnHdrInPayload + 2 ≤ payload.length)
    (now : Nat) :
    ∃ hdr t', beginRequest P
        (pin (Function.update t a { t a with lastActiveMs := now }) a) a payload
      = (some ⟨a, b, hdr⟩, t') ∧ SameKeys t t' := by
  have hbindings : bindings (pin (Function.update t a { t a with lastActiveMs := now }) a)
      = bindings t := by
    funext i
    unfold bindings pin
    by_cases hi : i = a
    · subst hi
      simp only [Function.update_self]
    · simp only [Function.update_of_ne hi]
  have hsetUp : (pin (Function.update t a { t a with lastActiveMs := now }) a a).setupDone
      = true := by
    simp [pin, h.setUp]
  have hkeys : SameKeys t (pin (Function.update t a { t a with lastActiveMs := now }) a) := by
    refine SameKeys.trans (sameKeys_update t a ?_) (sameKeys_pin _ a)
    exact ⟨rfl, rfl⟩
  unfold beginRequest findBForA
  rw [if_pos hsetUp, hbindings, h.partner]
  dsimp only
  rw [if_neg (by omega)]
  refine ⟨_, _, rfl, (hkeys.trans (sameKeys_pin _ b)).trans (sameKeys_update _ a ?_)⟩
  exact ⟨rfl, rfl⟩

/-- A packet that was built for a request of a requester whose sessions are held is relayed. -/
theorem Held.arrive {trip : Trip} (h : Held P trip.table a b path addr)
    (hfields : RoutingFields pub addr) (hrouted : Routed pub addr type payload)
    (hlen : payload.length ≤ maxInnerPayload) {app : AppRequest}
    (hparse : parseRequest payload hlen = some app) {ctr : Nat} {rnd : SphinxRandom}
    {pkt : WirePacket}
    (hbuild : packetSphinxBuild P path payload (pktReal ||| pktDestService) ctr rnd = some pkt) :
    ∃ hdr t', arrive P path trip pkt = some ⟨⟨a, b, hdr⟩, app, t'⟩ ∧ SameKeys trip.table t' := by
  obtain ⟨out, hout, hhint, hunwrap⟩ := packetAtHop_of_build P hbuild hlen trip.pads
  obtain ⟨⟨tl, hcons⟩, -⟩ := hrouted.fields hfields
  have hfind := h.find hrouted hfields hhint hunwrap trip.now
  have hshort : returnHdrInPayload + 2 ≤ payload.length := by
    by_contra hno
    have hraw : parseRaw payload = none := by
      unfold parseRaw
      rw [if_pos (by omega)]
    obtain ⟨raw, -, hsome, -⟩ := Option.pmap_eq_some_iff.mp hparse
    rw [hraw] at hsome
    cases hsome
  obtain ⟨hdr, t', hbegin, hkeys⟩ := h.begin hshort trip.now
  refine ⟨hdr, t', ?_, hkeys⟩
  have hrelay : ¬ (isDummy pktReal = true ∨ payload.head? = some typeSetup) := by
    rw [hcons]
    simp [isDummy, pktReal, pktDummy, typeSetup]
  unfold Retrieval.arrive takeRequest
  rw [hout, Option.bind_some, hfind]
  dsimp only
  rw [if_neg hrelay, hbegin]
  dsimp only
  rw [dif_pos hlen, hparse]
  rfl

end

/-! What the two programs send. -/

/-- The payload that a packet was built for, and what the gateway reads from it. -/
def SentFor (path : SphinxPath) (pub : PubKey) (addr : Addr) (app : AppRequest)
    (pkt : WirePacket) : Prop :=
  ∃ (payload : List UInt8) (hlen : payload.length ≤ maxInnerPayload) (ctr : Nat)
    (rnd : SphinxRandom), Routed pub addr app.type payload ∧
      parseRequest payload hlen = some app ∧
      packetSphinxBuild P path payload (pktReal ||| pktDestService) ctr rnd = some pkt

theorem SentFor.arrive {path : SphinxPath} {pub : PubKey} {addr : Addr} {app : AppRequest}
    {pkt : WirePacket} (h : SentFor P path pub addr app pkt) (hfields : RoutingFields pub addr)
    {trip : Trip} {a b : Fin maxSessions} (hheld : Held P trip.table a b path addr) :
    ∃ hdr t', arrive P path trip pkt = some ⟨⟨a, b, hdr⟩, app, t'⟩ ∧ SameKeys trip.table t' := by
  obtain ⟨payload, hlen, ctr, rnd, hrouted, hparse, hbuild⟩ := h
  exact hheld.arrive hfields hrouted hlen hparse hbuild

theorem client_sentFor {s : Client.RequestState} {type : RequestType} {key : Sender.CString}
    {data : Option (List UInt8)} {inp : Client.RequestInput} {pkt : WirePacket}
    (hnonce : hasNonce type = false) (hcarries : carriesData type = false → data.getD [] = [])
    (hkey : 0 < key.1.length)
    (h : (Client.sendAppRequest P s type key data inp).1 = .sent pkt) :
    ∃ app : AppRequest, app.type = type ∧ app.key.1 = key.1 ∧ app.data.1 = data.getD [] ∧
      SentFor P (s.legs inp.leg).path s.mncPubkey s.mncAddr app pkt := by
  rcases Client.sendAppRequest_cases P type key data s inp with
    ⟨hout, -⟩ | ⟨hout, -⟩ | ⟨hdr, payload, ctr, rnd, pkt', hout, -, hlong, hpayload, hbuild⟩
  · rw [hout] at h
    cases h
  · rw [hout] at h
    cases h
  · obtain rfl : pkt' = pkt := Sender.SendOutcome.sent.inj (hout.symm.trans h)
    obtain ⟨app, hparse, htype, hname, hdata⟩ :=
      Client.parseRequest_sent hnonce hcarries hkey hlong hpayload
    obtain ⟨-, -, heq⟩ := Client.payload_eq hpayload
    exact ⟨app, htype, hname, hdata, payload, _, ctr, rnd, ⟨hdr, _, by rw [htype]; exact heq⟩,
      hparse, hbuild⟩

section
open Sender

theorem sender_routed {type : RequestType} {nonce : Bytes slotNonceBytes} {key : CString}
    {data : Option (List UInt8)} {slot : SendSlot} {hdr : ReturnHeader} {payload : List UInt8}
    (h : (Sender.appSection type nonce key data).bind (Sender.requestPayload slot hdr)
      = some payload) : Routed slot.mnzPubkey slot.mnzAddr type payload := by
  obtain ⟨app, happ, hpay⟩ := Option.bind_eq_some_iff.mp h
  have hcons : ∃ rest, app = type.code :: rest := by
    unfold Sender.appSection at happ
    split at happ
    · exact ⟨_, (Option.some.inj happ).symm⟩
    · dsimp only at happ
      split at happ
      · cases happ
      · exact ⟨_, (Option.some.inj happ).symm⟩
  obtain ⟨rest, rfl⟩ := hcons
  unfold Sender.requestPayload at hpay
  dsimp only at hpay
  split at hpay
  · cases hpay
  · exact ⟨hdr, rest, (Option.some.inj hpay).symm⟩

theorem sender_sentFor {s : SenderState} {type : RequestType} {key : CString}
    {data : Option (List UInt8)} {inp : SendInput} {pkt : WirePacket}
    (hnonce : hasNonce type = true) (hcarries : carriesData type = false → data.getD [] = [])
    (hkey : 0 < key.1.length) (h : (Sender.sendAppRequest P s type key data inp).1 = .sent pkt) :
    ∃ app : AppRequest, app.type = type ∧ inp.requestNonce = some app.reqNonce ∧
      app.key.1 = key.1 ∧ app.data.1 = data.getD [] ∧
      SentFor P (s.slots inp.slot).path (s.slots inp.slot).mnzPubkey (s.slots inp.slot).mnzAddr
        app pkt := by
  obtain ⟨nonce, slot, hdr, payload, ctr, rnd, hdrawn, hslot, hlong, hpayload, hbuild⟩ :=
    sendAppRequest_payload P h
  obtain ⟨app, hparse, htype, hread, hname, hdata⟩ :=
    Sender.parseRequest_sent hnonce hcarries hkey hlong hpayload
  refine ⟨app, htype, hread ▸ hdrawn, hname, hdata, payload, _, ctr, rnd, ?_, hparse,
    hslot.path ▸ hbuild⟩
  rw [← hslot.mnzPubkey, ← hslot.mnzAddr, htype]
  exact sender_routed hpayload

end

/-! The answer to the client. -/

/-- The receiving key of the client, and the keys its return relays blind with. -/
structure ReturnEnd where
  kRSgB : AesKey
  relays : Fin nPathHops → MixNode.SessionKeys

/-- The other half of a trip: the connections that the cache server takes between the two of a
GET, and what the gateway and the relays draw for the answer. -/
structure Exchange extends Trip where
  between : List Cache.Connection
  repliedAt : Nat
  gcmNonce : Bytes gcmNonceLen
  shifted : Fin nPathHops → ReturnHeader

/-- A response that is queued, sent over the return relays and taken by the client. -/
def answer (back : ReturnEnd) (x : Exchange) (t : Gateway.Table) (request : Request)
    (resp : List UInt8) : Option (List UInt8) :=
  ((finishRequest t request resp x.repliedAt request.a).pending.getLast?).bind fun e =>
    ((sending t request.a request.b e.hdr pktReal e.resp x.gcmNonce).packet P).bind fun pkt =>
      let wire := (List.finRange nPathHops).foldl
        (fun wire i => MixNode.returnOut P (back.relays i) wire (x.shifted i)) pkt
      if Client.listenerAccepts P back.kRSgB wire then Client.waitResponse P back.kRSgB wire
      else none

/-- What the client gets for its packet, and the state of the cache server behind it. -/
def exchange (path : SphinxPath) (back : ReturnEnd) (x : Exchange) (s : Cache.CacheState)
    (pkt : WirePacket) : Option (List UInt8) × Cache.CacheState :=
  match arrive P path x.toTrip pkt with
  | none => (none, s)
  | some r =>
    let (resp, s) := relay s r.app x.now x.between
    (resp.bind fun resp =>
      if resp = [] then none else answer P back x r.table r.request (withNonce r.app resp), s)

theorem answer_eq {back : ReturnEnd} (x : Exchange) {t : Gateway.Table} {request : Request}
    (hkey : (t request.b).e2eKey = back.kRSgB)
    (hblind : ∀ i, (t request.a).recvBlind i = (back.relays i).returnBlindKey)
    {resp : List UInt8} (hne : resp ≠ []) (hlen : resp.length ≤ maxInnerPayload) :
    answer P back x t request resp = some resp := by
  have hdeliver := deliver_eq P ⟨t, request, back.relays, x.shifted, hblind⟩
    ⟨.get, Bytes.zero _, ⟨[1], by decide⟩, noData⟩ hne hlen x.repliedAt x.gcmNonce
  unfold answer
  rw [← hkey]
  exact hdeliver

/-- The one connection that the gateway opens for a request other than GET. -/
def opened (app : AppRequest) (now : Nat) : Cache.Connection :=
  ⟨frame app.type app.key app.data, now⟩

end AnonSecNet.Retrieval
