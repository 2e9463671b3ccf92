import AnonSecNet.Cache.Heartbeat
import AnonSecNet.Gateway.Handlers
import AnonSecNet.Gateway.Relay
import AnonSecNet.MixNode.Handlers
import AnonSecNet.Sender.Receive

/-! The way of a reply from the cache server to the requester, with every capacity on it. -/
namespace AnonSecNet.Gateway
open Octets Cache Packing
variable (P : Primitives)

/-- The sessions a request came in on, and the three relays of the return path with the
header each of them passes on. -/
structure ReturnLeg where
  table : Table
  request : Request
  relays : Fin nPathHops → MixNode.SessionKeys
  shifted : Fin nPathHops → ReturnHeader
  blinding : ∀ i, (table request.a).recvBlind i = (relays i).returnBlindKey

namespace ReturnLeg
variable (leg : ReturnLeg)

/-- The key the requester and the gateway share on the return path. -/
def key : AesKey := (leg.table leg.request.b).e2eKey

/-- The entry of the mailbox that a response was queued in. -/
def queued (resp : List UInt8) (now : Nat) : Option PendingResp :=
  (finishRequest leg.table leg.request resp now leg.request.a).pending.getLast?

def throughRelays (hops : List (Fin nPathHops)) (pkt : WirePacket) : WirePacket :=
  hops.foldl (fun wire i => MixNode.returnOut P (leg.relays i) wire (leg.shifted i)) pkt

/-- What the requester's wait returns for the packet that reaches its listener. -/
def taken (r : AppRequest) (wire : WirePacket) : Option (List UInt8) :=
  if hasNonce r.type then
    if Sender.listenerAccepts P leg.key wire then
      Sender.senderWaitResponse P leg.key r.reqNonce wire
    else none
  else if Client.listenerAccepts P leg.key wire then Client.waitResponse P leg.key wire
  else none

/-- The way of a response that is not empty, from `send_response` to the requester. -/
def deliver (r : AppRequest) (resp : List UInt8) (now : Nat) (gcmNonce : Bytes gcmNonceLen) :
    Option (List UInt8) :=
  (leg.queued (withNonce r resp) now).bind fun e =>
    ((sending leg.table leg.request.a leg.request.b e.hdr pktReal e.resp gcmNonce).packet P).bind
      fun pkt => leg.taken P r (leg.throughRelays P (List.finRange nPathHops) pkt)

end ReturnLeg

/-- The bytes the requester gets for its request; an empty response is not sent. -/
def received (leg : ReturnLeg) (s : CacheState) (r : AppRequest) (now : Nat)
    (between : List Connection) (gcmNonce : Bytes gcmNonceLen) : Option (List UInt8) :=
  (relay s r now between).1.bind fun resp =>
    if resp = [] then none else leg.deliver P r resp now gcmNonce

/-- The last reply the cache server sends for the request, without its length field. -/
def cacheReply (s : CacheState) (r : AppRequest) (now : Nat) (between : List Connection) :
    List UInt8 :=
  let first := (handleConnection s (frame r.type r.key noData) now).1
  if r.type = .get ∧ replyLen first ≠ 0 then
    ((handleConnection (Machine.run serve between s) (frame r.type r.key noData) now).1).drop 2
  else first.drop 2

/-- The requests whose reply is relayed verbatim. -/
def Verbatim (s : CacheState) (r : AppRequest) : Prop :=
  r.type = .handshakePoll ∨ r.type = .heartbeat ∨
    r.type = .get ∧ (s.store.get (cacheKey r.key)).isSome

/-- No listing of the first waiting handshakes fits the reply of the cache server and is too
long once the nonce is in front of it. -/
def ListingFits (s : CacheState) : Prop :=
  ∀ ps, ps <+: s.waiting → 1 + total entrySize ps ≤ maxInnerPayload →
    1 + total entrySize ps ≤ maxInnerPayload - slotNonceBytes

/-- The two connections of a GET find a content that is not empty. -/
def ContentFits (s : CacheState) (key : CacheKey) (between : List Connection) : Prop :=
  s.store.get key ≠ some noData ∧ (Machine.run serve between s).store.get key ≠ some noData

def ReplyFits (s : CacheState) (r : AppRequest) (between : List Connection) : Prop :=
  (r.type = .heartbeat → ListingFits s) ∧
    (r.type = .get → ContentFits s (cacheKey r.key) between)

/-! The way back. -/

theorem read_throughRelays (leg : ReturnLeg) {payload : Bytes returnPayloadSize}
    {hops : List (Fin nPathHops)} {wire : WirePacket}
    (h : wire.read returnHeaderSize returnPayloadSize
      = preBlind P (leg.table leg.request.a).recvBlind hops payload) :
    (leg.throughRelays P hops wire).read returnHeaderSize returnPayloadSize = payload := by
  induction hops generalizing wire with
  | nil => exact h
  | cons i hops ih =>
    have hpeeled : (MixNode.returnOut P (leg.relays i) wire (leg.shifted i)).read
        returnHeaderSize returnPayloadSize
        = preBlind P (leg.table leg.request.a).recvBlind hops payload := by
      rw [MixNode.returnOut, Bytes.read_append_snd, h, ← leg.blinding i]
      exact packetAesCtrXor_twice P _ _ (by decide) (by decide)
    exact ih hpeeled

theorem queued_of_fits (leg : ReturnLeg) {resp : List UInt8} (hne : resp ≠ [])
    (hlen : resp.length ≤ maxInnerPayload) (now : Nat) :
    leg.queued resp now = some ⟨resp, leg.request.reqHdr, now⟩ := by
  unfold ReturnLeg.queued finishRequest sendResponse
  rw [if_neg hne, if_neg (by omega)]
  have hkept : ∀ (t : Table) (i j : Fin maxSessions), (unpin t i j).pending = (t j).pending := by
    intro t i j
    unfold unpin
    rw [Function.update_apply]
    split
    · rename_i heq
      rw [heq]
    · rfl
  rw [hkept, hkept, Function.update_self]
  exact List.getLast?_concat

theorem deliver_eq (leg : ReturnLeg) (r : AppRequest) {resp : List UInt8} (hne : resp ≠ [])
    (hlen : (withNonce r resp).length ≤ maxInnerPayload) (now : Nat)
    (gcmNonce : Bytes gcmNonceLen) : leg.deliver P r resp now gcmNonce = some resp := by
  have hsent : withNonce r resp ≠ [] := by
    unfold withNonce
    split
    · exact List.append_ne_nil_of_right_ne_nil _ hne
    · exact hne
  obtain ⟨enc, henc, -, hpkt⟩ := sendResponseEx_of_fits P (leg.table leg.request.a).recvBlind
    leg.key leg.request.reqHdr pktReal (withNonce r resp) gcmNonce
    (by simp at hlen ⊢; omega)
  have hpacket : (sending leg.table leg.request.a leg.request.b leg.request.reqHdr pktReal
      (withNonce r resp) gcmNonce).packet P = some (leg.request.reqHdr
        ++ preBlind P (leg.table leg.request.a).recvBlind (List.finRange nPathHops)
          (returnPayload enc)) := hpkt
  unfold ReturnLeg.deliver
  rw [queued_of_fits leg hsent hlen, Option.bind_some, hpacket, Option.bind_some]
  have hread : (leg.throughRelays P (List.finRange nPathHops) (leg.request.reqHdr
      ++ preBlind P (leg.table leg.request.a).recvBlind (List.finRange nPathHops)
        (returnPayload enc))).read returnHeaderSize returnPayloadSize = returnPayload enc :=
    read_throughRelays P leg (Bytes.read_append_snd _ _)
  unfold ReturnLeg.taken
  unfold withNonce at hlen henc
  split
  · rename_i hnonce
    rw [if_pos hnonce] at hlen henc
    obtain ⟨haccept, hwait⟩ := Sender.receives_echoed P hlen henc hread
    rw [if_pos haccept, hwait]
  · rename_i hnonce
    rw [if_neg hnonce] at hlen henc
    obtain ⟨haccept, hwait⟩ := Client.receives_real P hlen henc hread
    rw [if_pos haccept, hwait]

theorem received_of_relay (leg : ReturnLeg) {s : CacheState} {r : AppRequest} {now : Nat}
    {between : List Connection} {resp : List UInt8} (h : (relay s r now between).1 = some resp)
    (hne : resp ≠ []) (hlen : (withNonce r resp).length ≤ maxInnerPayload)
    (gcmNonce : Bytes gcmNonceLen) :
    received P leg s r now between gcmNonce = some resp := by
  unfold received
  rw [h, Option.bind_some, if_neg hne]
  exact deliver_eq P leg r hne hlen now gcmNonce

/-! What the cache server and the gateway make of each kind of request. -/

theorem length_withNonce_le {r : AppRequest} {resp : List UInt8}
    (h : resp.length ≤ respCap r.type) : (withNonce r resp).length ≤ maxInnerPayload := by
  unfold respCap at h
  unfold withNonce
  split
  · rename_i hnonce
    rw [if_pos hnonce] at h
    simp at h ⊢
    omega
  · rename_i hnonce
    rwa [if_neg hnonce] at h

section
variable {P} {leg : ReturnLeg} {s : CacheState} {r : AppRequest} {now : Nat}
  {between : List Connection} {gcmNonce : Bytes gcmNonceLen}

theorem relay_poll (h : r.type = .handshakePoll) :
    relay s r now between = (some (handleHandshakePoll s (cacheKey r.key)).1,
      (handleHandshakePoll s (cacheKey r.key)).2) := by
  obtain ⟨-, hlen⟩ := handleHandshakePoll_reply s (cacheKey r.key)
  have hreply : handleConnection s (frame .handshakePoll r.key noData) now
      = (framed (handleHandshakePoll s (cacheKey r.key)).1,
          (handleHandshakePoll s (cacheKey r.key)).2) := by
    rw [handleConnection_frame]
    rfl
  unfold relay relayVerbatim
  rw [h]
  dsimp only
  rw [hreply, readReply_framed _ (by simp at hlen; omega), if_neg (by simp at hlen ⊢; omega)]

theorem received_poll (h : r.type = .handshakePoll) :
    received P leg s r now between gcmNonce = some (cacheReply s r now between) := by
  obtain ⟨hne, hlen⟩ := handleHandshakePoll_reply s (cacheKey r.key)
  have hreply : handleConnection s (frame r.type r.key noData) now
      = (framed (handleHandshakePoll s (cacheKey r.key)).1,
          (handleHandshakePoll s (cacheKey r.key)).2) := by
    rw [handleConnection_frame, h]
    rfl
  have hcache : cacheReply s r now between = (handleHandshakePoll s (cacheKey r.key)).1 := by
    unfold cacheReply
    rw [hreply, if_neg (by simp [h])]
    exact drop_framed _
  rw [hcache]
  exact received_of_relay P leg (congrArg Prod.fst (relay_poll h)) hne
    (length_withNonce_le (by rw [h]; simp [respCap, hasNonce] at hlen ⊢; omega)) gcmNonce

theorem received_heartbeat (h : r.type = .heartbeat) :
    received P leg s r now between gcmNonce = some (cacheReply s r now between) ↔
      ListingFits s := by
  have hlen := length_handleHeartbeat_le s
  have hreply : handleConnection s (frame r.type r.key noData) now
      = (framed (handleHeartbeat s), s) := by
    rw [handleConnection_frame, h]
    rfl
  have hcache : cacheReply s r now between = handleHeartbeat s := by
    unfold cacheReply
    rw [hreply, if_neg (by simp [h])]
    exact drop_framed _
  have hcap : respCap .heartbeat = maxInnerPayload - slotNonceBytes := rfl
  have hrelay : (relay s r now between).1
      = if maxInnerPayload - slotNonceBytes < (handleHeartbeat s).length then none
        else some (handleHeartbeat s) := by
    rw [h] at hreply
    unfold relay relayVerbatim
    rw [h]
    dsimp only
    rw [hreply, readReply_framed _ (by simp at hlen; omega), hcap]
  rw [hcache, ListingFits, ← heartbeat_fits_iff s slotNonceBytes (by decide)]
  constructor
  · intro hgot
    by_contra hlong
    unfold received at hgot
    rw [hrelay, if_pos (by omega)] at hgot
    cases hgot
  · intro hfits
    rw [if_neg (by omega)] at hrelay
    obtain ⟨count, hcons⟩ := handleHeartbeat_eq s
    exact received_of_relay P leg hrelay (by rw [hcons]; exact List.cons_ne_nil _ _)
      (length_withNonce_le (by rw [h]; exact hfits)) gcmNonce

theorem cacheReply_get (h : r.type = .get) {probe content : Content}
    (hprobe : s.store.get (cacheKey r.key) = some probe)
    (hcontent : (Machine.run serve between s).store.get (cacheKey r.key) = some content) :
    cacheReply s r now between = if probe = noData then [] else content.1 := by
  have hlen : replyLen (framed probe.1) = probe.1.length := by
    have := probe.2
    exact replyLen_framed (by simp at this; omega)
  unfold cacheReply
  rw [h, handleConnection_get s r.key now hprobe, handleConnection_get _ r.key now hcontent]
  dsimp only
  rw [hlen, drop_framed, drop_framed]
  by_cases hempty : probe = noData
  · rw [if_pos hempty, if_neg (by rw [eq_noData_iff.mp hempty]; simp), hempty]
    rfl
  · have hne : probe.1.length ≠ 0 := fun h =>
      hempty (eq_noData_iff.mpr (List.eq_nil_of_length_eq_zero h))
    rw [if_neg hempty, if_pos ⟨rfl, hne⟩]

theorem received_get (h : r.type = .get) (hstored : (s.store.get (cacheKey r.key)).isSome) :
    received P leg s r now between gcmNonce = some (cacheReply s r now between) ↔
      ContentFits s (cacheKey r.key) between := by
  obtain ⟨probe, hprobe⟩ := Option.isSome_iff_exists.mp hstored
  obtain ⟨content, hcontent⟩ := Option.isSome_iff_exists.mp (run_stored between hstored)
  have hsize := content.2
  have hrelay : (relay s r now between).1
      = some (if probe = noData then keyNotFound else content.1) := by
    unfold relay
    rw [h]
    exact relayGet_stored hprobe hcontent
  have hcap : respCap r.type = maxInnerPayload := by rw [h]; rfl
  rw [cacheReply_get h hprobe hcontent, ContentFits, hprobe, hcontent]
  by_cases hempty : probe = noData
  · rw [if_pos hempty] at hrelay ⊢
    rw [received_of_relay P leg hrelay (by decide) (length_withNonce_le (by rw [hcap]; decide))]
    exact ⟨fun hgot => absurd hgot (by decide), fun hfits => absurd (congrArg some hempty) hfits.1⟩
  · rw [if_neg hempty] at hrelay ⊢
    by_cases hblank : content = noData
    · unfold received
      rw [hrelay, Option.bind_some, if_pos (eq_noData_iff.mp hblank)]
      exact ⟨fun hgot => absurd hgot (by simp), fun hfits => absurd (congrArg some hblank) hfits.2⟩
    · rw [received_of_relay P leg hrelay (fun hnil => hblank (eq_noData_iff.mpr hnil))
        (length_withNonce_le (by rw [hcap]; simp at hsize ⊢; omega))]
      simp [hempty, hblank]

end

/-- The reply of the cache server reaches the requester byte for byte exactly if no listing
of waiting handshakes has a length that only the nonce makes too long, and a content that
is asked for is not empty. -/
theorem reply_delivered_iff (leg : ReturnLeg) (s : CacheState) (r : AppRequest) (now : Nat)
    (between : List Connection) (gcmNonce : Bytes gcmNonceLen) (hverbatim : Verbatim s r) :
    received P leg s r now between gcmNonce = some (cacheReply s r now between) ↔
      ReplyFits s r between := by
  unfold ReplyFits
  rcases hverbatim with h | h | ⟨h, hstored⟩
  · simp [h, received_poll h]
  · simp [h, received_heartbeat h]
  · simp [h, received_get h hstored]

/-- A return path on which every relay has keys of its own. -/
def ReturnLeg.sample : ReturnLeg where
  table i :=
    { zeroSession with
      e2eKey := sampleMaster i
      recvBlind := fun j => sampleMaster (200 + j) }
  request := ⟨0, 1, Bytes.fit _ [7, 1, 2]⟩
  relays i := ⟨sampleMaster (210 + i), sampleMaster (220 + i), sampleMaster (200 + i)⟩
  shifted i := Bytes.fit _ [UInt8.ofNat i]
  blinding _ := rfl

/-- The wire key of a receiver; the first ones wait for a content key of five bytes, the others for
one of six. -/
def crowdKey (short i : Nat) : RawKey :=
  ⟨(if i < short then labelBytes "mykey#000" else labelBytes "report#000")
      ++ [UInt8.ofNat (48 + i)],
    by split <;> simp [labelBytes]⟩

def crowd (short n : Nat) : List Connection :=
  (List.range n).map fun i =>
    ⟨frame .handshakeInit (crowdKey short i)
      ⟨(Bytes.fit ecPubkeyLen [4, UInt8.ofNat i]).toList, by rw [Bytes.length_eq]; decide⟩, 0⟩

def respondBody : Content := ⟨List.replicate 130 7, by rw [List.length_replicate]; decide⟩

/-- Nine receivers; the second and the fourth have their answers. -/
def answeredCrowd : CacheState :=
  Machine.run serve
    (crowd 5 9 ++ [1, 3].map fun i =>
      ⟨frame .handshakeRespond (crowdKey 5 i) respondBody, 1000⟩)
    .initial

/-- A listing of 460 bytes, behind which the last receiver finds no room. -/
theorem reply_delivered_answeredCrowd :
    (cacheReply answeredCrowd heartbeatRequest 2000 []).length = 460 ∧
      answeredCrowd.waiting.length = 7 ∧ answeredCrowd.listed.length = 6 ∧
      received .sample .sample answeredCrowd heartbeatRequest 2000 [] (Bytes.fit _ [9])
        = some (cacheReply answeredCrowd heartbeatRequest 2000 []) := by
  have hlen : (handleHeartbeat answeredCrowd).length ≤ maxInnerPayload - slotNonceBytes := by
    decide +kernel
  refine ⟨by decide +kernel, by decide +kernel, by decide +kernel, ?_⟩
  refine (reply_delivered_iff .sample .sample answeredCrowd heartbeatRequest 2000 []
    (Bytes.fit _ [9]) (.inr (.inl rfl))).mpr ⟨fun _ => ?_, nofun⟩
  exact (heartbeat_fits_iff answeredCrowd slotNonceBytes (by decide)).mp hlen

/-- One receiver waits for a content key of five bytes, five for one of six: their listing of 462
bytes does not leave room for the nonce and is dropped. -/
theorem crowded_heartbeat_is_dropped :
    (cacheReply (Machine.run serve (crowd 1 6) .initial) heartbeatRequest 0 []).length = 462 ∧
      ¬ received .sample .sample (Machine.run serve (crowd 1 6) .initial) heartbeatRequest 0 []
          (Bytes.zero _)
        = some (cacheReply (Machine.run serve (crowd 1 6) .initial) heartbeatRequest 0 []) := by
  have hdropped :
      (relay (Machine.run serve (crowd 1 6) .initial) heartbeatRequest 0 []).1 = none := by
    decide +kernel
  refine ⟨by decide +kernel, ?_⟩
  unfold received
  rw [hdropped]
  exact fun hgot => nomatch hgot

end AnonSecNet.Gateway
