import AnonSecNet.Retrieval.Recovery

/-! What is left of a request of the client or the sender when the cache server reads it: the
relays, the gateway's parser and the gateway's own encoding are in between. -/
namespace AnonSecNet.Retrieval
open Octets Gateway
open MixNode (packetAtHop)
open Sender (CString)
variable (P : Primitives)

/-- What the branch for each type writes to the cache server. -/
def forwarded (app : AppRequest) : List UInt8 :=
  match app.type with
  | .get => frame .get app.key noData
  | .put => frame .put app.key app.data
  | .handshakeInit => frame .handshakeInit app.key app.data
  | .handshakePoll => frame .handshakePoll app.key noData
  | .heartbeat => frame .heartbeat app.key noData
  | .handshakeRespond => frame .handshakeRespond app.key app.data

/-- The branch for each type, over what one connection to the cache server does. -/
def relayOver (type : RequestType) (connect : Cache.CacheState → List UInt8 × Cache.CacheState)
    (s : Cache.CacheState) (between : List Cache.Connection) :
    Option (List UInt8) × Cache.CacheState :=
  let (reply, s) := connect s
  match type with
  | .get =>
    if replyLen reply = 0 then (some keyNotFound, s)
    else
      let (reply, s) := connect (Machine.run Cache.serve between s)
      (readReply maxInnerPayload reply, s)
  | .put => (some contentStored, s)
  | .handshakeInit | .handshakeRespond => (some [reply.getD 2 0], s)
  | .handshakePoll => (readReply maxInnerPayload reply, s)
  | .heartbeat => (readReply (respCap .heartbeat) reply, s)

/-- The request, as the gateway and the cache server read it from a packet; `f` is what the cache
server serves in every connection for it. -/
def ReadAsWritten (path : SphinxPath) (pkt : WirePacket) (type : RequestType)
    (nonce : Option (Bytes slotNonceBytes)) (key data : List UInt8) : Prop :=
  ∀ pads : Fin nPathHops → WirePacket, ∃ (out : WirePacket) (payload : List UInt8) (flags : UInt8)
    (hlen : payload.length ≤ maxInnerPayload) (app : AppRequest) (f : Cache.Frame),
      packetAtHop P path pads pkt nPathHops = some out ∧
      packetSphinxUnwrap P out path.e2eKey = some (payload, flags) ∧
      parseRequest payload hlen = some app ∧ app.type = type ∧
      (nonce = none ∨ nonce = some app.reqNonce) ∧ app.key.1 = key ∧ app.data.1 = data ∧
      Cache.parseFrame (forwarded app) = some f ∧ RequestType.ofCode f.type = some type ∧
      f.key.1 = key ∧ f.data.1 = data ∧
      ∀ s now between, relay s app now between
        = relayOver type (fun s => Cache.serveFrame s f now) s between

/-- The relay writes these bytes in every connection. -/
theorem relay_forwarded (app : AppRequest) (s : Cache.CacheState) (now : Nat)
    (between : List Cache.Connection) :
    relay s app now between
      = relayOver app.type (fun s => Cache.handleConnection s (forwarded app) now) s between := by
  obtain ⟨type, nonce, key, data⟩ := app
  cases type with
  | get => rfl
  | put => rfl
  | handshakeInit => rfl
  | handshakePoll => rfl
  | heartbeat => rfl
  | handshakeRespond => rfl

theorem forwarded_eq {app : AppRequest} (h : carriesData app.type = false → app.data = noData) :
    forwarded app = frame app.type app.key app.data := by
  obtain ⟨type, nonce, key, data⟩ := app
  cases type with
  | get => rw [show data = noData from h rfl]; rfl
  | put => rfl
  | handshakeInit => rfl
  | handshakePoll => rw [show data = noData from h rfl]; rfl
  | heartbeat => rw [show data = noData from h rfl]; rfl
  | handshakeRespond => rfl

section
variable {P} {path : SphinxPath} {pub : PubKey} {addr : Addr} {pkt : WirePacket}

/-- A packet whose payload the gateway reads as this request. -/
theorem SentFor.readAsWritten {app : AppRequest} (h : SentFor P path pub addr app pkt)
    {key : CString} {data : Option (List UInt8)}
    (hcarries : carriesData app.type = false → data.getD [] = [])
    (hkey : app.key.1 = key.1) (hdata : app.data.1 = data.getD [])
    {nonce : Option (Bytes slotNonceBytes)} (hnonce : nonce = none ∨ nonce = some app.reqNonce) :
    ReadAsWritten P path pkt app.type nonce key.1 (data.getD []) := by
  obtain ⟨payload, hlen, ctr, rnd, -, hparse, hbuild⟩ := h
  intro pads
  obtain ⟨out, hout, -, hunwrap⟩ := packetAtHop_of_build P hbuild hlen pads
  have hempty : carriesData app.type = false → app.data = noData := fun hno =>
    eq_noData_iff.mpr (by rw [hdata, hcarries hno])
  have hread : Cache.parseFrame (forwarded app)
      = some ⟨app.type.code, cacheKey app.key, app.data⟩ := by
    rw [forwarded_eq hempty]
    exact parseFrame_frame app.type app.key app.data
  refine ⟨out, payload, _, hlen, app, _, hout, hunwrap, hparse, rfl, hnonce, hkey, hdata, hread,
    RequestType.ofCode_code _, cacheKey_plain hkey, hdata, fun s now between => ?_⟩
  rw [relay_forwarded]
  unfold Cache.handleConnection
  rw [hread]

end

/-- A request with a key, and with data only where the type carries it, is read as it was written
when the program sends requests of its type. -/
theorem request_relayed (type : RequestType) (key : CString) (data : Option (List UInt8))
    (hkey : 0 < key.1.length) (hcarries : carriesData type = false → data.getD [] = []) :
    (hasNonce type = false → ∀ s inp pkt,
      (Client.sendAppRequest P s type key data inp).1 = .sent pkt →
        ReadAsWritten P (s.legs inp.leg).path pkt type none key.1 (data.getD [])) ∧
      (hasNonce type = true → ∀ s inp pkt,
        (Sender.sendAppRequest P s type key data inp).1 = .sent pkt → inp.requestNonce.isSome ∧
          ReadAsWritten P (s.slots inp.slot).path pkt type inp.requestNonce key.1 (data.getD [])) := by
  constructor
  · intro hnonce s inp pkt hsent
    obtain ⟨app, rfl, hname, hdata, hfor⟩ := client_sentFor P hnonce hcarries hkey hsent
    exact hfor.readAsWritten hcarries hname hdata (.inl rfl)
  · intro hnonce s inp pkt hsent
    obtain ⟨app, rfl, hdrawn, hname, hdata, hfor⟩ := sender_sentFor P hnonce hcarries hkey hsent
    exact ⟨by rw [hdrawn]; rfl, hfor.readAsWritten hcarries hname hdata (.inr hdrawn)⟩

def noKey : CString := ⟨[], by simp⟩

/-- The packet of a sample client. -/
def clientPacket (type : RequestType) (key : CString) (data : Option (List UInt8)) :
    Option WirePacket :=
  (Client.sendAppRequest .sample sampleClient type key data (sampleVisit []).inp).1.toOption

def sampleNonce : Bytes slotNonceBytes := Bytes.fit _ [3, 9]

def senderPacket (type : RequestType) (key : CString) (data : Option (List UInt8)) :
    Option WirePacket :=
  (Sender.sendAppRequest .sample sampleSender type key data
    { (Sender.UploadInput.sample (sampleMaster 0) true).send with
      requestNonce := some sampleNonce }).1.toOption

def sampleBlob : List UInt8 := List.replicate 40 8

/-- An INIT with an ephemeral key, a GET with empty data and a PUT with a blob. -/
theorem request_relayed_sample :
    (∃ pkt, clientPacket .handshakeInit Sender.sampleKey (some samplePub.toList) = some pkt ∧
      ReadAsWritten .sample .sample pkt .handshakeInit none Sender.sampleKey.1 samplePub.toList) ∧
    (∃ pkt, clientPacket .get Sender.sampleKey (some []) = some pkt ∧
      ReadAsWritten .sample .sample pkt .get none Sender.sampleKey.1 []) ∧
    ∃ pkt, senderPacket .put Sender.sampleKey (some sampleBlob) = some pkt ∧
      ReadAsWritten .sample .sample pkt .put (some sampleNonce) Sender.sampleKey.1 sampleBlob := by
  have hsent : (clientPacket .handshakeInit Sender.sampleKey (some samplePub.toList)).isSome ∧
      (clientPacket .get Sender.sampleKey (some [])).isSome ∧
      (senderPacket .put Sender.sampleKey (some sampleBlob)).isSome := by
    decide +kernel
  obtain ⟨pkt₁, h₁⟩ := Option.isSome_iff_exists.mp hsent.1
  obtain ⟨pkt₂, h₂⟩ := Option.isSome_iff_exists.mp hsent.2.1
  obtain ⟨pkt₃, h₃⟩ := Option.isSome_iff_exists.mp hsent.2.2
  have hinit := (request_relayed .sample .handshakeInit Sender.sampleKey (some samplePub.toList)
    (by decide) (fun hno => absurd hno (by decide))).1 rfl sampleClient (sampleVisit []).inp pkt₁
      (Sender.SendOutcome.toOption_eq_some.mp h₁)
  have hget := (request_relayed .sample .get Sender.sampleKey (some []) (by decide)
    (fun _ => rfl)).1 rfl sampleClient (sampleVisit []).inp pkt₂
      (Sender.SendOutcome.toOption_eq_some.mp h₂)
  have hput := (request_relayed .sample .put Sender.sampleKey (some sampleBlob) (by decide)
    (fun hno => absurd hno (by decide))).2 rfl sampleSender
      { (Sender.UploadInput.sample (sampleMaster 0) true).send with
        requestNonce := some sampleNonce } pkt₃ (Sender.SendOutcome.toOption_eq_some.mp h₃)
  exact ⟨⟨pkt₁, h₁, hinit⟩, ⟨pkt₂, h₂, hget⟩, pkt₃, h₃, hput.2⟩

/-- A client's PUT would have no nonce, and the gateway reads the first bytes of the key as one. -/
theorem put_of_client_misread {pkt : WirePacket}
    (h : clientPacket .put Sender.sampleKey none = some pkt) :
    ¬ ReadAsWritten .sample .sample pkt .put none Sender.sampleKey.1 [] := by
  intro hread
  obtain ⟨out, payload, flags, hlen, app, f, hout, hunwrap, hparse, -⟩ :=
    hread fun _ => Bytes.zero _
  rcases Client.sendAppRequest_cases .sample .put Sender.sampleKey none sampleClient
    (sampleVisit []).inp with
    ⟨hout, -⟩ | ⟨hout, -⟩ | ⟨hdr, payload', ctr, rnd, pkt', hsome, -, -, hbuilt, hpack⟩
  · rw [clientPacket, hout] at h
    cases h
  · rw [clientPacket, hout] at h
    cases h
  · obtain rfl : pkt' = pkt :=
      Sender.SendOutcome.sent.inj (hsome.symm.trans (Sender.SendOutcome.toOption_eq_some.mp h))
    obtain ⟨hlen', -, heq⟩ := Client.payload_eq hbuilt
    obtain ⟨out', hout', -, hunwrap'⟩ :=
      packetAtHop_of_build .sample hpack hlen' fun _ => Bytes.zero _
    obtain rfl := Option.some.inj (hout'.symm.trans hout)
    obtain ⟨rfl, rfl⟩ := Prod.mk.inj (Option.some.inj (hunwrap'.symm.trans hunwrap))
    obtain ⟨raw, -, hraw, -⟩ := Option.pmap_eq_some_iff.mp hparse
    have hrouting : (sampleClient.mncPubkey.toList ++ sampleClient.mncAddr.toList
        ++ hdr.toList).length = returnHdrInPayload := by simp
    have hnone : parseTyped .put (UInt8.ofNat Sender.sampleKey.1.length ::
        (Sender.sampleKey.1 ++ [])) = none := by
      decide
    unfold parseRaw at hraw
    split at hraw
    · cases hraw
    · rw [heq, List.drop_left' hrouting] at hraw
      simp only [RequestType.ofCode_code, Option.bind_some] at hraw
      cases hnone.symm.trans hraw

/-- Accepted requests that do not arrive as they were written: without a key, with data for a type
that carries none, and of a type that the client is not meant to send. -/
theorem accepted_not_read :
    (∃ pkt, clientPacket .get noKey none = some pkt ∧
      ¬ ReadAsWritten .sample .sample pkt .get none noKey.1 []) ∧
    (∃ pkt, clientPacket .get Sender.sampleKey (some [7]) = some pkt ∧
      ¬ ReadAsWritten .sample .sample pkt .get none Sender.sampleKey.1 [7]) ∧
    ∃ pkt, clientPacket .put Sender.sampleKey none = some pkt ∧
      ¬ ReadAsWritten .sample .sample pkt .put none Sender.sampleKey.1 [] := by
  have hsent : (clientPacket .get noKey none).isSome ∧
      (clientPacket .get Sender.sampleKey (some [7])).isSome ∧
      (clientPacket .put Sender.sampleKey none).isSome := by
    decide +kernel
  obtain ⟨pkt₁, h₁⟩ := Option.isSome_iff_exists.mp hsent.1
  obtain ⟨pkt₂, h₂⟩ := Option.isSome_iff_exists.mp hsent.2.1
  obtain ⟨pkt₃, h₃⟩ := Option.isSome_iff_exists.mp hsent.2.2
  refine ⟨⟨pkt₁, h₁, ?_⟩, ⟨pkt₂, h₂, ?_⟩, pkt₃, h₃, put_of_client_misread h₃⟩
  · intro hread
    obtain ⟨-, -, -, -, app, -, -, -, -, -, -, hkey, -⟩ := hread fun _ => Bytes.zero _
    have hpos := app.key.2.1
    rw [hkey] at hpos
    exact Nat.lt_irrefl 0 hpos
  · intro hread
    obtain ⟨-, -, -, -, app, f, -, -, -, htype, -, -, -, hparse, -, -, hdata, -⟩ :=
      hread fun _ => Bytes.zero _
    unfold forwarded at hparse
    rw [htype] at hparse
    dsimp only at hparse
    rw [parseFrame_frame] at hparse
    obtain rfl := Option.some.inj hparse
    cases hdata

end AnonSecNet.Retrieval
