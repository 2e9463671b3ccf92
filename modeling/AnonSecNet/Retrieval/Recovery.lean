import AnonSecNet.Retrieval.Fetch
import AnonSecNet.Sender.Runs

/-! From the upload to the content that the client shows: the PUT of the sender, its answer to
the handshake and the requests of the client, with whatever else happens in between. -/
namespace AnonSecNet.Retrieval
open Octets Gateway
open Sender hiding step appSection requestPayload sendAppRequest appLen payload_built
  parseRequest_sent
variable (K : KeyExchange) (P : Primitives)

/-- The connection to the cache server that the gateway opens for a packet. -/
def connection (path : SphinxPath) (trip : Trip) (pkt : WirePacket) : Option Cache.Connection :=
  (arrive P path trip pkt).map fun r => opened r.app trip.now

/-- All that happens from the upload of a content to its retrieval. -/
structure Course where
  key : CString
  content : List UInt8
  sender : SenderState
  upload : UploadInput
  putTrip : Trip
  /-- What the sender does between the upload and its answer. -/
  acts : List Sender.Act
  respond : RespondInput K
  respondTrip : Trip
  /-- The client, and the cache server when the PUT arrives. -/
  world : World
  back : ReturnEnd
  pins : Pins
  saves : Bool
  eph : K.Secret
  init : Visit
  /-- The polls before the one that gets the answer. -/
  early : List Visit
  /-- The connections between the last of them and the answer. -/
  beforeAnswer : List Cache.Connection
  poll : Visit
  get : Visit

namespace Course
variable {K} (verify : Verify) (c : Course K)

def putSlot : SendSlot := c.sender.slots c.upload.send.slot

def put : Option Cache.Connection :=
  (uploadPacket P c.sender c.key c.content c.upload).bind (connection P c.putSlot.path c.putTrip)

def wire : Option CString := wireKey c.key (K.pubkey c.eph)

/-- The sender when it answers. -/
def senderThen : SenderState :=
  (Machine.run (Sender.step P) c.acts
    (Trace.start (uploadContent P c.sender c.key c.content c.upload).2)).state

/-- Its slot for the answer, as it was before the upload. -/
def respondSlot : SendSlot := c.sender.slots c.respond.send.slot

/-- The worker has wire key and public key from the entry that HEARTBEAT lists. -/
def respondPacket : Option WirePacket :=
  c.wire.bind fun wire =>
    (respondWorker K P (c.senderThen P) wire (K.pubkey c.eph) c.respond).1.toOption.map Prod.snd

def answer : Option Cache.Connection :=
  (c.respondPacket P).bind
    (connection P ((c.senderThen P).slots c.respond.send.slot).path c.respondTrip)

/-- What the client shows in the end. -/
def fetched : Option (List UInt8) :=
  (c.put P).bind fun put =>
    (c.answer P).bind fun answer =>
      fetchContent K P verify c.back c.pins c.saves c.key (some c.eph)
        { c.init with before := put :: c.init.before }
        (c.early ++ [{ c.poll with before := c.beforeAnswer ++ answer :: c.poll.before }])
        c.get c.world

/-- The connections of others between INIT and the poll that gets the answer. -/
def during : List Cache.Connection :=
  c.early.flatMap Visit.before ++ c.beforeAnswer ++ c.poll.before

/-- The connections of others between PUT and GET. -/
def others : List Cache.Connection :=
  c.init.before ++ c.during ++ c.get.before ++ c.get.exchange.between

/-- Sender and client work, no message is lost and nobody touches the content or the
handshake. -/
structure Undisturbed : Prop where
  keyed : c.key.1 ≠ []
  plain : nonceSep ∉ c.key.1
  uploaded : (uploadContent P c.sender c.key c.content c.upload).1.isSent = true
  putFields : RoutingFields c.putSlot.mnzPubkey c.putSlot.mnzAddr
  putHeld : ∃ a b, Held P c.putTrip.table a b c.putSlot.path c.putSlot.mnzAddr
  stored : ∀ name, name.1 = c.key.1 → c.world.cache.store.Fits name
  otherKeys : ∀ content inp, Sender.Act.upload c.key content inp ∉ c.acts
  /-- The upload found room in the registry. -/
  owned : c.sender.ownedKeys.Fits c.key
  drawn : c.respond.eph.isSome ∧ c.respond.gcmNonce.isSome ∧ c.respond.signature.isSome
  responds : ∀ wire sig, c.wire = some wire → c.respond.signature = some sig →
    Sends c.sender wire (some (ecPubkeyLen + 2 + (aesKeyLen + gcmOverhead) + 1 +
      sig.1.length)) c.respond.send
  respondFields : RoutingFields c.respondSlot.mnzPubkey c.respondSlot.mnzAddr
  respondHeld : ∃ a b, Held P c.respondTrip.table a b c.respondSlot.path c.respondSlot.mnzAddr
  signedContent : ∀ sig, c.upload.signature = some sig →
    verify c.sender.identityPub c.content sig.1 = true
  signedAnswer : ∀ wire ephPub enc sig, c.wire = some wire →
    sealContentKey K P (c.senderThen P) wire (K.pubkey c.eph) c.respond = some (ephPub, enc) →
      c.respond.signature = some sig →
        verify (c.senderThen P).identityPub (respondSigned ephPub enc) sig.1 = true
  fields : RoutingFields c.world.client.mncPubkey c.world.client.mncAddr
  served : ∀ v ∈ c.init :: c.poll :: c.get :: c.early, Served P c.back c.world.client v
  /-- INIT finds a slot. -/
  slot : ∀ put wire name, c.put P = some put → c.wire = some wire → name.1 = wire.1 →
    let s := Machine.run Cache.serve (put :: c.init.before) c.world.cache
    ((Cache.pendingFind s name).or (Cache.pendingFree s c.init.exchange.now)).isSome
  tries : c.early.length < handshakePollMaxTries
  pinned : NoConflict c.pins c.key c.sender.identityPub
  saved : c.saves = true
  quiet : ∀ conn ∈ c.others, ∀ name, name.1 = c.key.1 → ¬ conn.PutsTo name
  spared : ∀ conn ∈ c.during, ∀ wire p, c.wire = some wire → p.key.1 = wire.1 →
    p.createdMs = c.init.exchange.now → conn.Spares p

end Course

/-- An answer to a receiver's public key, when the content key is there and nothing fails. -/
theorem respondWorker_sent {s : SenderState} {wire : CString} (eph : K.Secret)
    {inp : RespondInput K} {kContent : AesKey} (hlookup : respondLookup s wire = some kContent)
    (hdrawn : inp.eph.isSome ∧ inp.gcmNonce.isSome ∧ inp.signature.isSome)
    (hsends : ∀ sig, inp.signature = some sig → Sends s wire (some (ecPubkeyLen + 2 +
      (aesKeyLen + gcmOverhead) + 1 + sig.1.length)) inp.send) :
    ∃ ephS kSession gcmNonce enc sig pkt,
      cryptoEcdhDerive K ephS (K.pubkey eph) = some kSession ∧
      cryptoAesEncrypt P kSession gcmNonce kContent.toList (aesKeyLen + gcmOverhead) = some enc ∧
      sealContentKey K P s wire (K.pubkey eph) inp = some (K.pubkey ephS, enc.1) ∧
      inp.signature = some sig ∧
      (Sender.sendAppRequest P s .handshakeRespond wire
        (some (respondData (K.pubkey ephS) enc.1 sig)) inp.send).1 = .sent pkt ∧
      (respondWorker K P s wire (K.pubkey eph) inp).1
        = .sent (respondData (K.pubkey ephS) enc.1 sig, pkt) := by
  obtain ⟨ephS, hephS⟩ := Option.isSome_iff_exists.mp hdrawn.1
  obtain ⟨gcmNonce, hnonce⟩ := Option.isSome_iff_exists.mp hdrawn.2.1
  obtain ⟨sig, hsig⟩ := Option.isSome_iff_exists.mp hdrawn.2.2
  obtain ⟨shared, hshared⟩ := Option.isSome_iff_exists.mp (K.shared_isSome ephS eph)
  have hsession : cryptoEcdhDerive K ephS (K.pubkey eph)
      = some (K.hkdf shared labelKeyExchange) := by
    rw [cryptoEcdhDerive, hshared]
    rfl
  obtain ⟨enc, henc, hlen⟩ := cryptoAesEncrypt_of_fits P (K.hkdf shared labelKeyExchange) gcmNonce
    kContent.toList (aesKeyLen + gcmOverhead) (by simp)
  have hseal : sealContentKey K P s wire (K.pubkey eph) inp = some (K.pubkey ephS, enc.1) := by
    rw [sealContentKey, hlookup, Option.bind_some, hephS, Option.bind_some, hsession,
      Option.bind_some, hnonce, Option.bind_some, henc, Option.map_some]
  have hsent : (Sender.sendAppRequest P s .handshakeRespond wire
      (some (respondData (K.pubkey ephS) enc.1 sig)) inp.send).1.isSent = true := by
    refine (sendAppRequest_spec P s _ wire _ inp.send).sent.mpr ?_
    rw [Option.map_some, length_respondData, hlen, kContent.length_eq]
    exact hsends sig hsig
  obtain ⟨pkt, hpkt⟩ := SendOutcome.isSent_iff.mp hsent
  have hsplit : Sender.sendAppRequest P s .handshakeRespond wire
      (some (respondData (K.pubkey ephS) enc.1 sig)) inp.send = (.sent pkt, _) := Prod.ext hpkt rfl
  refine ⟨ephS, _, gcmNonce, enc, sig, pkt, hsession, henc, hseal, hsig, hpkt, ?_⟩
  unfold respondWorker
  rw [hseal, hsig]
  dsimp only
  rw [hsplit]

/-! The loop of polls. -/

section
variable {K P} {verify : Verify} {back : ReturnEnd} {pins : Pins} {key wire : CString}
  {eph : K.Secret} {name : Cache.CacheKey}

/-- What the polls before the answer and the connections around them leave as it is. -/
structure Waiting (wire : CString) (p : Cache.PendingHandshake) (content : Cache.CacheKey)
    (blob : Cache.Content) (s : Cache.CacheState) : Prop where
  holds : Cache.HoldsPending s p
  key : p.key.1 = wire.1
  stored : s.store.get content = some blob

theorem Waiting.run {p : Cache.PendingHandshake} {blob : Cache.Content} {s : Cache.CacheState}
    (h : Waiting wire p name blob s) {conns : List Cache.Connection}
    (hquiet : ∀ c ∈ conns, ¬ c.PutsTo name) (hspared : ∀ c ∈ conns, c.Spares p) :
    Waiting wire p name blob (Machine.run Cache.serve conns s) :=
  ⟨h.holds.run hspared, h.key, (Cache.run_get hquiet s).trans h.stored⟩

/-- A poll that comes too early is answered with status 0 and changes nothing. -/
theorem pollLoop_early {p : Cache.PendingHandshake} {blob : Cache.Content}
    (hready : p.ready = false)
    (hkey : 0 < wire.1.length) (hlong : wire.1.length ≤ maxSendKeyLen) (rest : List Visit)
    {early : List Visit} {w : World} (hwait : Waiting wire p name blob w.cache)
    (hfields : RoutingFields w.client.mncPubkey w.client.mncAddr)
    (hserved : ∀ v ∈ early, Served P back w.client v)
    (hquiet : ∀ c ∈ early.flatMap Visit.before, ¬ c.PutsTo name)
    (hspared : ∀ c ∈ early.flatMap Visit.before, c.Spares p) :
    ∃ w', pollLoop K P verify back pins key wire eph (early ++ rest) w
        = pollLoop K P verify back pins key wire eph rest w' ∧
      Client.SameRoutes w.client w'.client ∧ Waiting wire p name blob w'.cache := by
  induction early generalizing w with
  | nil => exact ⟨w, rfl, ⟨rfl, rfl, rfl, fun _ => rfl⟩, hwait⟩
  | cons v early ih =>
    simp only [List.flatMap_cons, List.mem_append] at hquiet hspared
    have hbefore := hwait.run (fun c hc => hquiet c (.inl hc)) (fun c hc => hspared c (.inl hc))
    obtain ⟨w₁, hreq, hsame, -, hcache⟩ := request_poll (hserved v List.mem_cons_self) hfields hkey
      hlong rfl hbefore.key
    rw [Cache.handleHandshakePoll_waiting hbefore.holds hready] at hreq hcache
    obtain ⟨w', hloop, hsame', hwait'⟩ := ih (w := w₁) (hcache ▸ hbefore)
      (by rw [hsame.mncPubkey, hsame.mncAddr]; exact hfields)
      (fun v' hv' => (hserved v' (List.mem_cons_of_mem _ hv')).sameRoutes hsame)
      (fun c hc => hquiet c (.inr hc)) (fun c hc => hspared c (.inr hc))
    refine ⟨w', ?_, hsame.trans hsame', hwait'⟩
    rw [List.cons_append, pollLoop, hreq]
    exact hloop

end

/-! The two messages of the sender at the cache server. -/

theorem serve_put {app : AppRequest} (h : app.type = .put) {s : Cache.CacheState}
    (hfits : s.store.Fits (cacheKey app.key)) (now : Nat) :
    (Cache.serve s (opened app now)).store.get (cacheKey app.key) = some app.data := by
  have hserve : Cache.serve s (opened app now)
      = (Cache.storePut s (cacheKey app.key) app.data).2 := by
    unfold Cache.serve opened
    rw [h, handleConnection_frame]
    rfl
  rw [hserve]
  exact Keyed.Store.get_put_self hfits

theorem serve_respond {app : AppRequest} (h : app.type = .handshakeRespond)
    {s : Cache.CacheState} {p : Cache.PendingHandshake} (hholds : Cache.HoldsPending s p)
    (hkey : cacheKey app.key = p.key)
    (hdata : ecPubkeyLen + 2 ≤ app.data.1.length ∧ app.data.1.length ≤ Cache.maxRespData)
    (now : Nat) :
    Cache.HoldsPending (Cache.serve s (opened app now))
      { p with respData := ⟨app.data.1, hdata.2⟩, ready := true } := by
  have hserve : Cache.serve s (opened app now)
      = (Cache.handleHandshakeRespond s p.key app.data).2 := by
    unfold Cache.serve opened
    rw [h, handleConnection_frame, hkey]
    rfl
  rw [hserve]
  exact Cache.handleHandshakeRespond_holds hholds hdata

namespace Course.Undisturbed
variable {K P} {verify : Verify} {c : Course K} (h : c.Undisturbed P verify)
include h

theorem put_arrives :
    ∃ kContent sig gcmNonce ct app, c.upload.signature = some sig ∧
      cryptoAesEncrypt P kContent gcmNonce c.content maxInnerPayload = some ct ∧
      c.put P = some (opened app c.putTrip.now) ∧ app.type = .put ∧ app.key.1 = c.key.1 ∧
      app.data.1 = signedBlob c.sender.identityPub sig ct.1 ∧
      (uploadContent P c.sender c.key c.content c.upload).2.ownedKeys
        = (c.sender.ownedKeys.put c.key kContent).2 := by
  obtain ⟨kContent, blob, hseal, hsent, hregistry⟩ := uploadContent_sent P h.uploaded
  obtain ⟨sig, gcmNonce, ct, hsig, hct, rfl⟩ := sealContent_eq_some P hseal
  obtain ⟨pkt, hpkt⟩ := Option.isSome_iff_exists.mp hsent
  have hsend := hpkt
  rw [uploadPacket, hseal, Option.bind_some] at hsend
  obtain ⟨app, htype, -, hname, hdata, hfor⟩ := sender_sentFor P
    (show hasNonce .put = true from rfl) (fun hno => absurd hno (by decide))
    (List.length_pos_iff.mpr h.keyed) (SendOutcome.toOption_eq_some.mp hsend)
  obtain ⟨a, b, hheld⟩ := h.putHeld
  obtain ⟨hdr, t', harrive, -⟩ := hfor.arrive P h.putFields hheld
  refine ⟨kContent, sig, gcmNonce, ct, app, hsig, hct, ?_, htype, hname, hdata, hregistry⟩
  have harrive' : arrive P c.putSlot.path c.putTrip pkt = some ⟨⟨a, b, hdr⟩, app, t'⟩ := harrive
  rw [Course.put, hpkt, Option.bind_some, connection, harrive']
  rfl

theorem same_sender : SameSender c.sender (c.senderThen P) :=
  (uploadContent_same P c.sender c.key c.content c.upload).trans (run_keeps P h.otherKeys
    (Trace.start (uploadContent P c.sender c.key c.content c.upload).2)).1

theorem key_short : c.key.1.length ≤ maxSendKeyLen := by
  obtain ⟨kContent, blob, hseal, -⟩ := uploadContent_sent P h.uploaded
  rcases sealContent_spec P c.sender c.key c.content c.upload with
    ⟨hnone, -⟩ | ⟨_, _, -, hprepared, -⟩
  · rw [hseal] at hnone
    cases hnone
  · exact hprepared.2.1

theorem wire_built : ∃ wire, c.wire = some wire ∧ wire.1.length = c.key.1.length + 5 ∧
    contentKeyOf wire = c.key := by
  obtain ⟨wire, hwire⟩ :=
    Option.isSome_iff_exists.mp (wireKey_of_accepted h.key_short (K.pubkey c.eph))
  obtain ⟨hlen, suffix, hsuffix⟩ := wireKey_eq_some hwire
  exact ⟨wire, hwire, hlen, (contentKeyOf_plain h.key_short hsuffix).mpr h.plain⟩

/-- The answer carries the content key of the upload. -/
theorem answer_arrives {kContent : AesKey}
    (hregistry : (uploadContent P c.sender c.key c.content c.upload).2.ownedKeys
      = (c.sender.ownedKeys.put c.key kContent).2) :
    ∃ wire ephS kSession gcmNonce enc sig app, c.wire = some wire ∧ wire.1.length ≤ maxSendKeyLen ∧
      wire.1.length = c.key.1.length + 5 ∧
      cryptoEcdhDerive K ephS (K.pubkey c.eph) = some kSession ∧
      cryptoAesEncrypt P kSession gcmNonce kContent.toList (aesKeyLen + gcmOverhead) = some enc ∧
      verify c.sender.identityPub (respondSigned (K.pubkey ephS) enc.1) sig.1 = true ∧
      c.answer P = some (opened app c.respondTrip.now) ∧ app.type = .handshakeRespond ∧
      app.key.1 = wire.1 ∧ app.data.1 = respondData (K.pubkey ephS) enc.1 sig := by
  obtain ⟨wire, hwire, hlen, hcut⟩ := h.wire_built
  have hlookup : respondLookup (c.senderThen P) wire = some kContent := by
    rw [respondLookup, hcut]
    refine (run_keeps P h.otherKeys
      (Trace.start (uploadContent P c.sender c.key c.content c.upload).2)).2.trans ?_
    change (uploadContent P c.sender c.key c.content c.upload).2.ownedKeys.get c.key = _
    rw [hregistry]
    exact Keyed.Store.get_put_self h.owned
  obtain ⟨ephS, kSession, gcmNonce, enc, sig, pkt, hsession, henc, hseal, hsig, hsend, hworker⟩ :=
    respondWorker_sent K P c.eph hlookup h.drawn fun sig hsig =>
      ⟨h.same_sender.ready.trans (h.responds wire sig hwire hsig).1,
        (h.responds wire sig hwire hsig).2⟩
  have hlong : wire.1.length ≤ maxSendKeyLen := by
    obtain ⟨-, -, -, -, -, -, -, -, hlong, -⟩ := sendAppRequest_payload P hsend
    exact hlong
  obtain ⟨app, htype, -, hname, hdata, hfor⟩ := sender_sentFor P
    (show hasNonce .handshakeRespond = true from rfl) (fun hno => absurd hno (by decide))
    (show 0 < wire.1.length by omega) hsend
  obtain ⟨a, b, hheld⟩ := h.respondHeld
  have hslot := h.same_sender.slots c.respond.send.slot
  rw [hslot.path, hslot.mnzPubkey, hslot.mnzAddr] at hfor
  obtain ⟨hdr, t', harrive, -⟩ := hfor.arrive P h.respondFields hheld
  have hsigned := h.signedAnswer wire _ _ sig hwire hseal hsig
  rw [h.same_sender.identityPub] at hsigned
  refine ⟨wire, ephS, kSession, gcmNonce, enc, sig, app, hwire, hlong, hlen, hsession, henc,
    hsigned, ?_, htype, hname, hdata⟩
  have hpkt : c.respondPacket P = some pkt := by
    rw [Course.respondPacket, hwire, Option.bind_some, hworker]
    rfl
  have harrive' : arrive P c.respondSlot.path c.respondTrip pkt = some ⟨⟨a, b, hdr⟩, app, t'⟩ :=
    harrive
  rw [Course.answer, hpkt, Option.bind_some, connection, hslot.path]
  exact congrArg (Option.map fun r => opened r.app c.respondTrip.now) harrive'

theorem quiet_of_mem {conns : List Cache.Connection} (hconns : conns ⊆ c.others)
    {name : Cache.CacheKey} (hname : name.1 = c.key.1) :
    ∀ conn ∈ conns, ¬ conn.PutsTo name :=
  fun conn hmem => h.quiet conn (hconns hmem) name hname

/-- INIT after the PUT: the handshake waits and the content is stored. -/
theorem init_waits {put : AppRequest} (hput : c.put P = some (opened put c.putTrip.now))
    (hputType : put.type = .put) (hputKey : put.key.1 = c.key.1) {wire : CString}
    (hwire : c.wire = some wire) (hpos : 0 < wire.1.length) (hlong : wire.1.length ≤ maxSendKeyLen) :
    ∃ w p, request P c.back .handshakeInit wire (some (K.pubkey c.eph).toList)
        { c.init with before := opened put c.putTrip.now :: c.init.before } c.world
        = (some (some [0x01]), w) ∧
      Client.SameRoutes c.world.client w.client ∧
      Waiting wire p (cacheKey put.key) put.data w.cache ∧ p.ready = false ∧
      p.createdMs = c.init.exchange.now := by
  have hinit := h.served c.init (by simp)
  have hname := cacheKey_plain hputKey
  obtain ⟨w, p, hreq, hsame, hstore, hholds, hp, hready, hcreated⟩ := request_init
    (v := { c.init with before := opened put c.putTrip.now :: c.init.before })
    ⟨hinit.able, hinit.held⟩ h.fields hpos hlong (K.pubkey c.eph) rfl
    fun name hn => h.slot _ wire name hput hwire hn
  refine ⟨w, p, hreq, hsame, ⟨hholds, hp, ?_⟩, hready, hcreated⟩
  have hquiet := h.quiet_of_mem (show c.init.before ⊆ c.others by simp [Course.others]) hname
  rw [hstore]
  exact (Cache.run_get hquiet _).trans (serve_put hputType (h.stored _ hname) _)

/-- The polls: the early ones find the handshake waiting, the last one gets the answer. -/
theorem polls_answered {wire : CString} (hwire : c.wire = some wire) (hpos : 0 < wire.1.length)
    (hlong : wire.1.length ≤ maxSendKeyLen) {ans : AppRequest}
    (hansType : ans.type = .handshakeRespond) (hansKey : ans.key.1 = wire.1)
    {kContent : AesKey} (hopens : openAnswer K P verify c.pins c.key c.eph ans.data.1 = some kContent)
    (hdata : ecPubkeyLen + 2 ≤ ans.data.1.length ∧ ans.data.1.length ≤ Cache.maxRespData)
    {name : Cache.CacheKey} (hname : name.1 = c.key.1) {blob : Cache.Content} {w : World}
    {p : Cache.PendingHandshake} (hsame : Client.SameRoutes c.world.client w.client)
    (hwait : Waiting wire p name blob w.cache) (hready : p.ready = false)
    (hcreated : p.createdMs = c.init.exchange.now) :
    ∃ w', pollLoop K P verify c.back c.pins c.key wire c.eph
        (c.early ++ [{ c.poll with
          before := c.beforeAnswer ++ opened ans c.respondTrip.now :: c.poll.before }]) w
        = (some kContent, w') ∧
      Client.SameRoutes c.world.client w'.client ∧ w'.cache.store.get name = some blob := by
  have hspared : ∀ conn ∈ c.during, ∀ q : Cache.PendingHandshake, q.key = p.key →
      q.createdMs = p.createdMs → conn.Spares q := fun conn hmem q hq ht =>
    h.spared conn hmem wire q hwire ((congrArg Subtype.val hq).trans hwait.key) (ht.trans hcreated)
  have hduring : ∀ {conns : List Cache.Connection}, conns ⊆ c.during →
      ∀ conn ∈ conns, ¬ conn.PutsTo name := fun hsub => h.quiet_of_mem (fun conn hmem =>
        List.mem_append_left _ (List.mem_append_left _ (List.mem_append_right _ (hsub hmem)))) hname
  have hbefore : c.early.flatMap Visit.before ⊆ c.during := fun _ hmem =>
    List.mem_append_left _ (List.mem_append_left _ hmem)
  have hmiddle : c.beforeAnswer ⊆ c.during := fun _ hmem =>
    List.mem_append_left _ (List.mem_append_right _ hmem)
  have hafter : c.poll.before ⊆ c.during := fun _ hmem => List.mem_append_right _ hmem
  have hearly : ∀ v ∈ c.early, Served P c.back w.client v := fun v hv =>
    (h.served v (by simp [hv])).sameRoutes hsame
  have hfields : RoutingFields w.client.mncPubkey w.client.mncAddr := by
    rw [hsame.mncPubkey, hsame.mncAddr]
    exact h.fields
  obtain ⟨w₁, hloop, hsame₁, hwait₁⟩ := pollLoop_early (K := K) hready hpos hlong
    [{ c.poll with before := c.beforeAnswer ++ opened ans c.respondTrip.now :: c.poll.before }]
    hwait hfields hearly (hduring hbefore) fun conn hmem => hspared conn (hbefore hmem) p rfl rfl
  have hsame₂ := hsame.trans hsame₁
  -- the answer arrives, and nobody takes it before the client does
  have hwait₂ := hwait₁.run (hduring hmiddle) fun conn hmem => hspared conn (hmiddle hmem) p rfl rfl
  have hkey : cacheKey ans.key = p.key :=
    Subtype.ext ((cacheKey_plain hansKey).trans hwait.key.symm)
  have hanswered := serve_respond hansType hwait₂.holds hkey hdata c.respondTrip.now
  have hquiet : ∀ conn ∈ [opened ans c.respondTrip.now], ¬ conn.PutsTo name := by
    intro conn hmem
    rw [List.mem_singleton.mp hmem]
    exact not_putsTo_opened (by rw [hansType]; simp) _ name
  have hwait₃ : Waiting wire { p with respData := ⟨ans.data.1, hdata.2⟩, ready := true } name blob
      (Cache.serve (Machine.run Cache.serve c.beforeAnswer w₁.cache)
        (opened ans c.respondTrip.now)) :=
    ⟨hanswered, hwait.key, (Cache.run_get hquiet _).trans hwait₂.stored⟩
  have hwait₄ := hwait₃.run (hduring hafter) fun conn hmem => hspared conn (hafter hmem) _ rfl rfl
  have hpoll := (h.served c.poll (by simp)).sameRoutes hsame₂
  have hstate : Machine.run Cache.serve
      (c.beforeAnswer ++ opened ans c.respondTrip.now :: c.poll.before) w₁.cache
      = Machine.run Cache.serve c.poll.before (Cache.serve
          (Machine.run Cache.serve c.beforeAnswer w₁.cache) (opened ans c.respondTrip.now)) :=
    Machine.run_append Cache.serve _ _ _
  obtain ⟨w₂, hreq, hsame₃, hstore, -⟩ := request_poll
    (v := { c.poll with
      before := c.beforeAnswer ++ opened ans c.respondTrip.now :: c.poll.before })
    ⟨hpoll.able, hpoll.held⟩ (by rw [hsame₂.mncPubkey, hsame₂.mncAddr]; exact h.fields) hpos hlong
    hstate hwait₄.key
  refine ⟨w₂, ?_, hsame₂.trans hsame₃, (hstore name).trans hwait₄.stored⟩
  rw [hloop, pollLoop, hreq, Cache.handleHandshakePoll_ready hwait₄.holds rfl]
  dsimp only
  rw [if_neg (by decide), hopens]

/-- The handshake gives the client the content key of the upload. -/
theorem handshake_recovers {put : AppRequest} {kContent : AesKey}
    (hput : c.put P = some (opened put c.putTrip.now)) (hputType : put.type = .put)
    (hputKey : put.key.1 = c.key.1)
    (hregistry : (uploadContent P c.sender c.key c.content c.upload).2.ownedKeys
      = (c.sender.ownedKeys.put c.key kContent).2) :
    ∃ ans w, c.answer P = some (opened ans c.respondTrip.now) ∧
      performContentHandshake K P verify c.back c.pins c.key (some c.eph)
          { c.init with before := opened put c.putTrip.now :: c.init.before }
          (c.early ++ [{ c.poll with
            before := c.beforeAnswer ++ opened ans c.respondTrip.now :: c.poll.before }]) c.world
        = (some kContent, w) ∧
      Client.SameRoutes c.world.client w.client ∧
      w.cache.store.get (cacheKey put.key) = some put.data := by
  obtain ⟨wire, ephS, kSession, encNonce, enc, sigA, ans, hwire, hlong, hlen, hsession, henc,
    hsigned, hanswer, hansType, hansKey, hdata⟩ := h.answer_arrives hregistry
  have hpos : 0 < wire.1.length := by omega
  have hopens : openAnswer K P verify c.pins c.key c.eph ans.data.1 = some kContent := by
    rw [hdata]
    exact openAnswer_respondData K P hsession henc hsigned h.pinned
  have hsize : ecPubkeyLen + 2 ≤ ans.data.1.length ∧ ans.data.1.length ≤ Cache.maxRespData := by
    have hroom := sigA.2
    have henclen := length_cryptoAesEncrypt P henc
    rw [hdata, length_respondData, henclen]
    simp at hroom ⊢
    omega
  obtain ⟨w₁, p, hinit, hsame₁, hwait, hready, hcreated⟩ :=
    h.init_waits hput hputType hputKey hwire hpos hlong
  obtain ⟨w₂, hpolls, hsame₂, hstored⟩ := h.polls_answered hwire hpos hlong hansType hansKey hopens
    hsize (cacheKey_plain hputKey) hsame₁ hwait hready hcreated
  refine ⟨ans, w₂, hanswer, ?_, hsame₂, hstored⟩
  have htries : (c.early ++ [{ c.poll with
      before := c.beforeAnswer ++ opened ans c.respondTrip.now :: c.poll.before }]).take
        handshakePollMaxTries = c.early ++ [{ c.poll with
          before := c.beforeAnswer ++ opened ans c.respondTrip.now :: c.poll.before }] := by
    have := h.tries
    exact List.take_of_length_le (by simp; omega)
  have hwire' : wireKey c.key (K.pubkey c.eph) = some wire := hwire
  unfold performContentHandshake
  dsimp only
  rw [hwire']
  dsimp only
  rw [hinit]
  dsimp only
  rw [if_pos rfl, htries, hpolls]

end Course.Undisturbed

/-- The client shows the content that was uploaded. -/
theorem content_recovered (verify : Verify) (c : Course K) (h : c.Undisturbed P verify) :
    c.fetched P verify = some c.content := by
  obtain ⟨kContent, sig, gcmNonce, ct, put, hsig, hct, hput, hputType, hputKey, hblob, hregistry⟩ :=
    h.put_arrives
  obtain ⟨ans, w, hanswer, hhandshake, hsame, hstored⟩ :=
    h.handshake_recovers hput hputType hputKey hregistry
  have hname := cacheKey_plain hputKey
  have hget := (h.served c.get (by simp)).sameRoutes hsame
  have hbefore := (Cache.run_get (h.quiet_of_mem (fun conn hmem => List.mem_append_left _
    (List.mem_append_right _ hmem)) hname) w.cache).trans hstored
  have hblobNe : put.data ≠ noData := by
    intro hempty
    have := congrArg List.length (hblob.symm.trans (eq_noData_iff.mp hempty))
    simp [signedBlob] at this
  have hkey : 0 < c.key.1.length := List.length_pos_iff.mpr h.keyed
  obtain ⟨w', hreq⟩ := request_get hget (by rw [hsame.mncPubkey, hsame.mncAddr]; exact h.fields)
    hkey h.key_short rfl hname hblobNe hbefore
    (h.quiet_of_mem (fun conn hmem => List.mem_append_right _ hmem) hname)
  have hverified : (verifySignedContent P verify c.pins true c.key put.data.1 kContent).1
      = some c.content := by
    rw [hblob]
    exact verifySignedContent_signedBlob P hct (h.signedContent sig hsig) h.pinned
  unfold Course.fetched fetchContent
  rw [hput, Option.bind_some, hanswer, Option.bind_some, if_neg h.keyed, hhandshake]
  dsimp only
  rw [hreq]
  dsimp only
  rw [h.saved, hverified]

/-! A small course. -/

/-- A signature of one byte that depends on key and message. -/
def sampleSign (pub : PubKey) (msg : List UInt8) : Signature :=
  ⟨[msg.foldl (· ^^^ ·) (pub.byte 1 one_lt_ecPubkeyLen)], by simp⟩

def sampleVerify : Verify := fun pub msg sig => sig == (sampleSign pub msg).1

/-- A gateway with the two sessions of one requester. -/
def sampleTable (path : SphinxPath) (addr : Addr) : Gateway.Table := fun i =>
  if i = 0 then
    { zeroSession with
      inUse := true, role := sessionRoleA, e2eKey := path.e2eKey, sgHint := path.sgHint
      setupDone := true, boundB := some 1, mncAddr := addr }
  else if i = 1 then { zeroSession with inUse := true, role := sessionRoleB }
  else zeroSession

theorem held_sampleTable (path : SphinxPath) (addr : Addr) :
    Held P (sampleTable path addr) 0 1 path addr where
  live := rfl
  role := rfl
  setUp := rfl
  key := rfl
  hint := rfl
  alone i hi hlive hrole := by
    exfalso
    unfold sampleTable at hlive hrole
    rw [if_neg hi] at hlive hrole
    split at hrole
    · exact absurd hrole (by decide)
    · exact absurd hrole (by decide)
  port := rfl
  partner := rfl

def samplePub : PubKey := Bytes.fit ecPubkeyLen [4]

def sampleTrip : Trip := ⟨fun _ => Bytes.zero _, sampleTable .sample (addrPlain 9045), 0⟩

def sampleVisit (before : List Cache.Connection) : Visit where
  before := before
  inp := ⟨⟨0, Client.maxStripeLegs_pos⟩, some fun _ => Bytes.zero _, some (.sample 0), true⟩
  exchange := ⟨⟨fun _ => Bytes.zero _, sampleTable .sample (addrPlain 9041), 0⟩, [], 0,
    Bytes.zero _, fun _ => Bytes.zero _⟩

def sampleSender : SenderState :=
  { SenderState.sample with
    slots := fun i =>
      { SenderState.sample.slots i with mnzPubkey := samplePub, mnzAddr := addrPlain 9045 } }

def sampleClient : Client.RequestState where
  ready := true
  mncPubkey := samplePub
  mncAddr := addrPlain 9041
  route := .sample
  returnPkt := 0
  legs _ := ⟨.sample, 0⟩

def sampleSecret (a : UInt8) : KeyExchange.sample.Secret := a

/-- The sealed content key of the sample answer. -/
def sampleSealed : List UInt8 :=
  ((cryptoEcdhDerive .sample (sampleSecret 7)
      (KeyExchange.sample.pubkey (sampleSecret 9))).bind fun kSession =>
    (cryptoAesEncrypt .sample kSession (Bytes.zero _) (sampleMaster 0).toList
      (aesKeyLen + gcmOverhead)).map Subtype.val).getD []

def otherRequest : AppRequest := ⟨.get, Bytes.zero _, ⟨[65], by decide⟩, noData⟩

/-- The sender sends a HEARTBEAT and answers, and the client polls once before that. -/
def Course.sample : Course .sample where
  key := sampleKey
  content := [7, 8, 9]
  sender := sampleSender
  upload := { UploadInput.sample (sampleMaster 0) true with
    signature := some (sampleSign sampleSender.identityPub [7, 8, 9]) }
  putTrip := sampleTrip
  acts := [.heartbeat (UploadInput.sample (sampleMaster 0) true).send]
  respond :=
    { eph := some (sampleSecret 7)
      gcmNonce := some (Bytes.zero _)
      signature := some (sampleSign sampleSender.identityPub
        (respondSigned (KeyExchange.sample.pubkey (sampleSecret 7)) sampleSealed))
      send := (UploadInput.sample (sampleMaster 0) true).send }
  respondTrip := sampleTrip
  world := ⟨sampleClient, .initial⟩
  back := ⟨Bytes.zero _, fun _ => ⟨Bytes.zero _, Bytes.zero _, Bytes.zero _⟩⟩
  pins := fun _ => none
  saves := true
  eph := sampleSecret 9
  init := sampleVisit []
  early := [sampleVisit []]
  beforeAnswer := [opened otherRequest 0]
  poll := sampleVisit []
  get := sampleVisit []

theorem content_recovered_sample :
    Course.sample.fetched .sample sampleVerify = some [7, 8, 9] := by
  have hfields : RoutingFields samplePub (addrPlain 9045) ∧
      RoutingFields samplePub (addrPlain 9041) :=
    ⟨⟨rfl, rfl⟩, rfl, rfl⟩
  have hserved : Served .sample Course.sample.back sampleClient (sampleVisit []) :=
    ⟨⟨rfl, rfl, rfl, rfl⟩, 0, 1, held_sampleTable .sample .sample (addrPlain 9041), rfl,
      fun _ => rfl⟩
  have hsealed : (Course.sample.wire.bind fun wire => sealContentKey .sample .sample
      (Course.sample.senderThen .sample) wire (KeyExchange.sample.pubkey (sampleSecret 9))
      Course.sample.respond) = some (KeyExchange.sample.pubkey (sampleSecret 7), sampleSealed) := by
    decide +kernel
  have hslot : ((Course.sample.put .sample).map fun put => ((Machine.run Cache.serve [put]
      .initial).pending 0).inUse) = some false := by
    decide +kernel
  have hwire : Course.sample.wire.map (fun wire => wire.1.length) = some 10 := by
    decide +kernel
  refine content_recovered .sample .sample sampleVerify .sample
    { keyed := by decide
      plain := by decide
      uploaded := by decide +kernel
      putFields := hfields.1
      putHeld := ⟨0, 1, held_sampleTable .sample .sample (addrPlain 9045)⟩
      stored := fun _ _ => .inr (by decide)
      otherKeys := by intro content inp hmem; simp [Course.sample] at hmem
      owned := .inr (by decide)
      drawn := ⟨rfl, rfl, rfl⟩
      responds := ?_
      respondFields := hfields.1
      respondHeld := ⟨0, 1, held_sampleTable .sample .sample (addrPlain 9045)⟩
      signedContent := ?_
      signedAnswer := ?_
      fields := hfields.2
      served := ?_
      slot := ?_
      tries := by decide
      pinned := by intro existing hload; cases hload
      saved := rfl
      quiet := ?_
      spared := ?_ }
  · intro wire sig hw hsig
    have hlen : wire.1.length = 10 := by
      rw [hw] at hwire
      exact Option.some.inj hwire
    obtain rfl := Option.some.inj hsig
    refine ⟨rfl, rfl, rfl, rfl, rfl, ?_, ?_⟩
    · rw [hlen]
      decide
    · simp [Sender.appLen, hlen, sampleSign]
  · intro sig hsig
    obtain rfl := Option.some.inj hsig
    decide
  · intro wire ephPub enc sig hw hseal hsig
    rw [hw, Option.bind_some] at hsealed
    obtain ⟨rfl, rfl⟩ := Prod.mk.inj (Option.some.inj (hseal.symm.trans hsealed))
    obtain rfl := Option.some.inj hsig
    decide +kernel
  · intro v hv
    have hsame : v = sampleVisit [] := by simpa [Course.sample] using hv
    rw [hsame]
    exact hserved
  · intro put wire name hput _ _
    rw [hput, Option.map_some] at hslot
    have hfree : (Cache.pendingFree (Machine.run Cache.serve [put] .initial) 0).isSome :=
      List.find?_isSome.mpr ⟨0, List.mem_finRange 0, by simpa using .inl (Option.some.inj hslot)⟩
    change ((Cache.pendingFind (Machine.run Cache.serve [put] .initial) name).or
      (Cache.pendingFree (Machine.run Cache.serve [put] .initial) 0)).isSome
    rw [Option.isSome_or, hfree, Bool.or_true]
  · intro conn hmem name _
    obtain rfl : conn = opened otherRequest 0 := List.mem_singleton.mp hmem
    exact not_putsTo_opened (by decide) 0 name
  · intro conn hmem wire p _ _ _ f type hf htype hshake
    obtain rfl : conn = opened otherRequest 0 := List.mem_singleton.mp hmem
    obtain rfl := Option.some.inj ((parseFrame_frame .get _ _).symm.trans hf)
    obtain rfl : RequestType.get = type := Option.some.inj htype
    simp at hshake

end AnonSecNet.Retrieval
