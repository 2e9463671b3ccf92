import AnonSecNet.Cache.Pending
import AnonSecNet.Retrieval.Handshake
import AnonSecNet.Retrieval.Transport

/-! GET in the client: the handshake with the sender, the request for the content and what
comes back, over an honest gateway and an honest cache server. -/
namespace AnonSecNet.Retrieval
open Octets Gateway
open Sender (CString maxSendKeyLen)
variable (K : KeyExchange) (P : Primitives) (verify : Verify) (back : ReturnEnd)

/-- The client, and the cache server it talks to. -/
structure World where
  client : Client.RequestState
  cache : Cache.CacheState

/-- One request of the client, and the connections the cache server takes before it. -/
structure Visit where
  before : List Cache.Connection
  inp : Client.RequestInput
  exchange : Exchange

/-- `send_app_request` and `wait_response`: nothing when the first sends nothing, and otherwise what
the second returns. -/
def request (type : RequestType) (key : CString) (data : Option (List UInt8)) (v : Visit)
    (w : World) : Option (Option (List UInt8)) × World :=
  match Client.sendAppRequest P w.client type key data v.inp with
  | (.refused, client) => (none, ⟨client, w.cache⟩)
  -- none of the client's own requests is so long
  | (.overrun, client) => (none, ⟨client, w.cache⟩)
  | (.sent pkt, client) =>
    let (resp, cache) := exchange P (w.client.legs v.inp.leg).path back v.exchange
      (Machine.run Cache.serve v.before w.cache) pkt
    (some resp, ⟨client, cache⟩)

def handshakePollMaxTries : Nat := 20

/-- The loop of `perform_content_handshake`: no response and status 0 are tried again. -/
def pollLoop (pins : Pins) (key wire : CString) (eph : K.Secret) :
    List Visit → World → Option AesKey × World
  | [], w => (none, w)
  | v :: vs, w =>
    match request P back .handshakePoll wire none v w with
    | (none, w) => (none, w)
    | (some (some (status :: body)), w) =>
      if status = 0x00 then pollLoop pins key wire eph vs w
      else (openAnswer K P verify pins key eph body, w)
    | (some _, w) => pollLoop pins key wire eph vs w

def performContentHandshake (pins : Pins) (key : CString) (eph : Option K.Secret) (init : Visit)
    (polls : List Visit) (w : World) : Option AesKey × World :=
  match eph with
  | none => (none, w)
  | some eph =>
    match wireKey key (K.pubkey eph) with
    | none => (none, w)
    | some wire =>
      match request P back .handshakeInit wire (some (K.pubkey eph).toList) init w with
      | (some (some (ack :: _)), w) =>
        if ack = 0x01 then
          pollLoop K P verify back pins key wire eph (polls.take handshakePollMaxTries) w
        else (none, w)
      | (_, w) => (none, w)

/-- The branch of `run_interactive` for GET: the content that is shown. -/
def fetchContent (pins : Pins) (saves : Bool) (key : CString) (eph : Option K.Secret)
    (init : Visit) (polls : List Visit) (get : Visit) (w : World) : Option (List UInt8) :=
  if key.1 = [] then none
  else
    match performContentHandshake K P verify back pins key eph init polls w with
    | (none, _) => none
    | (some kContent, w) =>
      match request P back .get key none get w with
      | (some (some resp), _) => (verifySignedContent P verify pins saves key resp kContent).1
      | _ => none

/-! One request. -/

/-- Nothing but the length of the request can stop it, and the gateway holds the sessions of the
client's two paths. -/
structure Served (s : Client.RequestState) (v : Visit) : Prop where
  able : Client.Able s v.inp
  held : ∃ a b, Held P v.exchange.table a b (s.legs v.inp.leg).path s.mncAddr ∧
    (v.exchange.table b).e2eKey = back.kRSgB ∧
    ∀ i, (v.exchange.table a).recvBlind i = (back.relays i).returnBlindKey

variable {P back}

theorem Served.sameRoutes {s s' : Client.RequestState} {v : Visit} (h : Served P back s v)
    (hs : Client.SameRoutes s s') : Served P back s' v := by
  obtain ⟨⟨hready, hrest⟩, a, b, hheld, hkeys⟩ := h
  refine ⟨⟨hs.ready.trans hready, hrest⟩, a, b, ?_, hkeys⟩
  rw [hs.path, hs.mncAddr]
  exact hheld

section
variable {type : RequestType} {key : CString} {data : Option (List UInt8)} {v : Visit} {w : World}

/-- A request that fits is relayed, and the client gets the response. -/
theorem request_served (h : Served P back w.client v)
    (hfields : RoutingFields w.client.mncPubkey w.client.mncAddr)
    (hnonce : hasNonce type = false) (hcarries : carriesData type = false → data.getD [] = [])
    (hkey : 0 < key.1.length) (hlong : key.1.length ≤ maxSendKeyLen)
    (hfits : returnHdrInPayload + Client.appLen key (data.map List.length) ≤ maxInnerPayload) :
    ∃ (app : AppRequest) (client' : Client.RequestState), app.type = type ∧ app.key.1 = key.1 ∧
      app.data.1 = data.getD [] ∧ Client.SameRoutes w.client client' ∧
      ∀ resp s', relay (Machine.run Cache.serve v.before w.cache) app v.exchange.now
          v.exchange.between = (some resp, s') →
        resp ≠ [] → resp.length ≤ maxInnerPayload →
          request P back type key data v w = (some (some resp), ⟨client', s'⟩) := by
  have hsent : (Client.sendAppRequest P w.client type key data v.inp).1.isSent = true :=
    (Client.sendAppRequest_spec P w.client v.inp).1.mpr ⟨h.able, hlong, hfits⟩
  obtain ⟨pkt, hpkt⟩ := Sender.SendOutcome.isSent_iff.mp hsent
  obtain ⟨app, htype, hname, hdata, hfor⟩ := client_sentFor P hnonce hcarries hkey hpkt
  obtain ⟨a, b, hheld, hrecv, hblind⟩ := h.held
  obtain ⟨hdr, t', harrive, hkeys⟩ := hfor.arrive P hfields hheld
  refine ⟨app, _, htype, hname, hdata,
    Client.sendAppRequest_kept P w.client type key data v.inp, ?_⟩
  intro resp s' hrelay hne hlen
  have hresp : withNonce app resp = resp := by
    unfold withNonce
    rw [htype, hnonce]
    rfl
  have hanswer : answer P back v.exchange t' ⟨a, b, hdr⟩ resp = some resp :=
    answer_eq P v.exchange ((hkeys b).1.trans hrecv)
      (fun i => (congrFun (hkeys a).2 i).trans (hblind i)) hne hlen
  have hexchange : exchange P (w.client.legs v.inp.leg).path back v.exchange
      (Machine.run Cache.serve v.before w.cache) pkt = (some resp, s') := by
    unfold exchange
    rw [harrive]
    dsimp only
    rw [hrelay, Option.bind_some, if_neg hne, hresp, hanswer]
  have hsplit : Client.sendAppRequest P w.client type key data v.inp
      = (.sent pkt, (Client.sendAppRequest P w.client type key data v.inp).2) := Prod.ext hpkt rfl
  unfold request
  rw [hsplit]
  dsimp only
  rw [hexchange]

end

/-! The connections of the gateway. -/

theorem cacheKey_plain {key : CString} {name : RawKey} (h : name.1 = key.1) :
    (cacheKey name).1 = key.1 := by
  have hplain : Cache.cstr key.1 = key.1 :=
    List.takeWhile_eq_self_iff.mpr fun c hc => decide_eq_true fun heq => key.2 (heq ▸ hc)
  exact (congrArg Cache.cstr h).trans hplain

/-- A request that is no GET changes the cache server as its one connection does. -/
theorem relay_serve {app : AppRequest} (hget : app.type ≠ .get)
    (hdata : carriesData app.type = false → app.data = noData) (s : Cache.CacheState) (now : Nat)
    (between : List Cache.Connection) :
    (relay s app now between).2 = Cache.serve s (opened app now) := by
  obtain ⟨type, nonce, key, data⟩ := app
  cases type with
  | get => exact absurd rfl hget
  | put => rfl
  | handshakeInit => rfl
  | handshakeRespond => rfl
  | handshakePoll =>
    obtain rfl : data = noData := hdata rfl
    rfl
  | heartbeat =>
    obtain rfl : data = noData := hdata rfl
    rfl

theorem not_putsTo_opened {app : AppRequest} (h : app.type ≠ .put) (now : Nat)
    (key : Cache.CacheKey) : ¬ (opened app now).PutsTo key := by
  rintro ⟨f, hf, hput, -⟩
  obtain rfl := Option.some.inj ((parseFrame_frame app.type app.key app.data).symm.trans hf)
  rw [RequestType.ofCode_code] at hput
  exact h (Option.some.inj hput)

/-- No content has changed. -/
def SameStore (s s' : Cache.CacheState) : Prop := ∀ name, s'.store.get name = s.store.get name

theorem sameStore_relay {app : AppRequest} (hget : app.type ≠ .get) (hput : app.type ≠ .put)
    (hdata : carriesData app.type = false → app.data = noData) (s : Cache.CacheState) (now : Nat)
    (between : List Cache.Connection) : SameStore s (relay s app now between).2 := by
  intro name
  rw [relay_serve hget hdata]
  have hquiet : ∀ c ∈ [opened app now], ¬ c.PutsTo name := by
    intro c hc
    rw [List.mem_singleton.mp hc]
    exact not_putsTo_opened hput now name
  exact Cache.run_get hquiet s

/-! The requests of a retrieval. -/

section
variable {wire : CString} {v : Visit} {w : World} {s : Cache.CacheState}

theorem request_init (h : Served P back w.client v)
    (hfields : RoutingFields w.client.mncPubkey w.client.mncAddr)
    (hkey : 0 < wire.1.length) (hlong : wire.1.length ≤ maxSendKeyLen) (pub : PubKey)
    (hs : Machine.run Cache.serve v.before w.cache = s)
    (hslot : ∀ name : Cache.CacheKey, name.1 = wire.1 →
      ((Cache.pendingFind s name).or (Cache.pendingFree s v.exchange.now)).isSome) :
    ∃ w' p, request P back .handshakeInit wire (some pub.toList) v w = (some (some [0x01]), w') ∧
      Client.SameRoutes w.client w'.client ∧ SameStore s w'.cache ∧ Cache.HoldsPending w'.cache p ∧
      p.key.1 = wire.1 ∧ p.ready = false ∧ p.createdMs = v.exchange.now := by
  have hfits : returnHdrInPayload + Client.appLen wire ((some pub.toList).map List.length)
      ≤ maxInnerPayload := by
    simp [Client.appLen] at hlong ⊢
    omega
  obtain ⟨app, client', htype, hname, hdata, hsame, hreq⟩ :=
    request_served h hfields (show hasNonce .handshakeInit = false from rfl)
      (fun hno => absurd hno (by decide)) hkey hlong hfits
  have hpub : app.data.1.length = ecPubkeyLen := by
    rw [hdata]
    exact pub.length_eq
  have hwire := cacheKey_plain hname
  obtain ⟨p, hack, hholds, hp, -, hready, hcreated⟩ :=
    Cache.handleHandshakeInit_holds hpub (hslot _ hwire)
  have hserve := handleConnection_frame s .handshakeInit app.key app.data v.exchange.now
  have hrelay : relay s app v.exchange.now v.exchange.between
      = (some [0x01], (Cache.handleHandshakeInit s (cacheKey app.key) app.data
          v.exchange.now).2) := by
    have hreply : Cache.handleConnection s (frame .handshakeInit app.key app.data) v.exchange.now
        = (Cache.ackReply true, (Cache.handleHandshakeInit s (cacheKey app.key) app.data
            v.exchange.now).2) := hserve.trans (Prod.ext hack rfl)
    unfold relay
    rw [htype]
    dsimp only
    unfold relayAck
    rw [hreply]
    rfl
  refine ⟨_, p, hreq _ _ (hs ▸ hrelay) (by simp) (by simp), hsame, ?_, hholds, ?_, hready,
    hcreated⟩
  · have hget : app.type ≠ .get := by simp [htype]
    have hput : app.type ≠ .put := by simp [htype]
    have hstore := sameStore_relay hget hput (by rw [htype]; simp [carriesData]) s
      v.exchange.now v.exchange.between
    rw [hrelay] at hstore
    exact hstore
  · rw [hp]
    exact hwire

/-- POLL gets what the cache server has, whether the handshake is ready or not. -/
theorem request_poll (h : Served P back w.client v)
    (hfields : RoutingFields w.client.mncPubkey w.client.mncAddr)
    (hkey : 0 < wire.1.length) (hlong : wire.1.length ≤ maxSendKeyLen)
    (hs : Machine.run Cache.serve v.before w.cache = s) {name : Cache.CacheKey}
    (hname : name.1 = wire.1) :
    ∃ w', request P back .handshakePoll wire none v w
        = (some (some (Cache.handleHandshakePoll s name).1), w') ∧
      Client.SameRoutes w.client w'.client ∧ SameStore s w'.cache ∧
      w'.cache = (Cache.handleHandshakePoll s name).2 := by
  have hfits : returnHdrInPayload
        + Client.appLen wire ((none : Option (List UInt8)).map List.length)
      ≤ maxInnerPayload := by
    simp [Client.appLen] at hlong ⊢
    omega
  obtain ⟨app, client', htype, hkeyed, hdata, hsame, hreq⟩ :=
    request_served h hfields (show hasNonce .handshakePoll = false from rfl) (fun _ => rfl) hkey
      hlong hfits
  obtain rfl : name = cacheKey app.key :=
    Subtype.ext (hname.trans (cacheKey_plain hkeyed).symm)
  have hrelay : relay s app v.exchange.now v.exchange.between = _ := relay_poll htype
  obtain ⟨hne, hlen⟩ := Cache.handleHandshakePoll_reply s (cacheKey app.key)
  refine ⟨_, hreq _ _ (hs ▸ hrelay) hne (by simp at hlen ⊢; omega), hsame, ?_, rfl⟩
  have hget : app.type ≠ .get := by simp [htype]
  have hput : app.type ≠ .put := by simp [htype]
  have hstore := sameStore_relay hget hput (fun _ => eq_noData_iff.mpr hdata) s v.exchange.now
    v.exchange.between
  rw [hrelay] at hstore
  exact hstore

/-- GET of a key that stays stored. -/
theorem request_get {key : CString} (h : Served P back w.client v)
    (hfields : RoutingFields w.client.mncPubkey w.client.mncAddr)
    (hkey : 0 < key.1.length) (hlong : key.1.length ≤ maxSendKeyLen)
    (hs : Machine.run Cache.serve v.before w.cache = s) {name : Cache.CacheKey}
    (hname : name.1 = key.1) {blob : Cache.Content} (hblob : blob ≠ noData)
    (hstored : s.store.get name = some blob) (hquiet : ∀ c ∈ v.exchange.between, ¬ c.PutsTo name) :
    ∃ w', request P back .get key none v w = (some (some blob.1), w') := by
  have hfits : returnHdrInPayload + Client.appLen key ((none : Option (List UInt8)).map List.length)
      ≤ maxInnerPayload := by
    simp [Client.appLen] at hlong ⊢
    omega
  obtain ⟨app, client', htype, hkeyed, -, -, hreq⟩ :=
    request_served h hfields (show hasNonce .get = false from rfl) (fun _ => rfl) hkey hlong hfits
  obtain rfl : name = cacheKey app.key :=
    Subtype.ext (hname.trans (cacheKey_plain hkeyed).symm)
  have hbetween := (Cache.run_get hquiet s).trans hstored
  have hget : (relay s app v.exchange.now v.exchange.between).1 = some blob.1 := by
    unfold relay
    rw [htype]
    dsimp only
    rw [relayGet_stored hstored hbetween, if_neg hblob]
  have hrelay : relay s app v.exchange.now v.exchange.between
      = (some blob.1, (relay s app v.exchange.now v.exchange.between).2) := Prod.ext hget rfl
  have hsize := blob.2
  exact ⟨_, hreq _ _ (hs ▸ hrelay) (fun hnil => hblob (eq_noData_iff.mpr hnil))
    (by simp at hsize ⊢; omega)⟩

end

end AnonSecNet.Retrieval
