import AnonSecNet.Cache.Server

/-! How `handle_connection` of `service_gateway.c` reads a request and what it makes of the
replies of the cache server. -/
namespace AnonSecNet.Gateway
open Octets Cache

/-- The `klen` bytes of a key as they travel. -/
abbrev RawKey : Type := { k : List UInt8 // 0 < k.length ∧ k.length ≤ maxKeyLen }

/-- The dummy key of a heartbeat. -/
def heartbeatKey : RawKey := ⟨labelBytes "hb", by decide⟩

/-- What the cache server makes of it. -/
def cacheKey (key : RawKey) : CacheKey := ⟨cstr key.1, (length_cstr_le _).trans key.2.2⟩

/-- A request as the gateway has parsed it. -/
structure AppRequest where
  type : RequestType
  reqNonce : Bytes slotNonceBytes
  key : RawKey
  data : Content

def hasNonce : RequestType → Bool
  | .put | .heartbeat | .handshakeRespond => true
  | .get | .handshakeInit | .handshakePoll => false

def carriesData : RequestType → Bool
  | .put | .handshakeInit | .handshakeRespond => true
  | .get | .handshakePoll | .heartbeat => false

def noData : Content := ⟨[], by simp⟩

def heartbeatRequest : AppRequest := ⟨.heartbeat, Bytes.zero _, heartbeatKey, noData⟩

/-! Parsing. -/

/-- The fields of a request as they lie in the payload. -/
structure RawRequest where
  type : RequestType
  reqNonce : Bytes slotNonceBytes
  key : List UInt8
  data : List UInt8

/-- `[clen(2)][data]`; without room for the length there is no data. -/
def parseData : List UInt8 → Option (List UInt8)
  | hi :: lo :: rest =>
    if rest.length < valueList [hi, lo] then none else some (rest.take (valueList [hi, lo]))
  | _ => some []

def parseKeyed (type : RequestType) (reqNonce : Bytes slotNonceBytes) :
    List UInt8 → Option RawRequest
  | [] => none
  | klen :: rest =>
    if klen = 0 ∨ maxKeyLen < klen.toNat ∨ rest.length < klen.toNat then none
    else
      let data := if carriesData type then parseData (rest.drop klen.toNat) else some []
      data.map fun data => ⟨type, reqNonce, rest.take klen.toNat, data⟩

def parseTyped (type : RequestType) (rest : List UInt8) : Option RawRequest :=
  if hasNonce type then
    if rest.length < slotNonceBytes then none
    else parseKeyed type (Bytes.fit slotNonceBytes rest) (rest.drop slotNonceBytes)
  else parseKeyed type (Bytes.zero _) rest

/-- The part of the payload behind the routing fields. -/
def parseRaw (payload : List UInt8) : Option RawRequest :=
  if payload.length < returnHdrInPayload + 2 then none
  else
    match payload.drop returnHdrInPayload with
    | [] => none
    | code :: rest => (RequestType.ofCode code).bind fun type => parseTyped type rest

theorem length_parseData {rest data : List UInt8} (h : parseData rest = some data) :
    data.length ≤ rest.length := by
  unfold parseData at h
  split at h
  · split at h
    · cases h
    · obtain rfl := Option.some.inj h
      simp
      omega
  · obtain rfl := Option.some.inj h
    exact Nat.zero_le _

theorem parseKeyed_bounds {type : RequestType} {reqNonce : Bytes slotNonceBytes}
    {rest : List UInt8} {r : RawRequest} (h : parseKeyed type reqNonce rest = some r) :
    (0 < r.key.length ∧ r.key.length ≤ maxKeyLen) ∧ r.data.length ≤ rest.length := by
  unfold parseKeyed at h
  split at h
  · cases h
  · rename_i klen rest
    split at h
    · cases h
    · rename_i hklen
      obtain ⟨data, hdata, rfl⟩ := Option.map_eq_some_iff.mp h
      have hpos : klen.toNat ≠ 0 := fun h0 => hklen (Or.inl (UInt8.toNat_inj.mp h0))
      refine ⟨by simp at hklen ⊢; omega, ?_⟩
      split at hdata
      · have hlen := length_parseData hdata
        simp at hlen ⊢
        omega
      · obtain rfl := Option.some.inj hdata
        exact Nat.zero_le _

theorem parseRaw_bounds {payload : List UInt8} (hlen : payload.length ≤ maxInnerPayload)
    {r : RawRequest} (h : parseRaw payload = some r) :
    (0 < r.key.length ∧ r.key.length ≤ maxKeyLen) ∧ r.data.length ≤ maxContentLen := by
  unfold parseRaw at h
  split at h
  · cases h
  · split at h
    · cases h
    · rename_i code rest hrest
      have htail : rest.length + returnHdrInPayload + 1 = payload.length := by
        have := congrArg List.length hrest
        simp at this ⊢
        omega
      obtain ⟨type, -, htyped⟩ := Option.bind_eq_some_iff.mp h
      simp at hlen htail ⊢
      unfold parseTyped at htyped
      split at htyped
      · split at htyped
        · cases htyped
        · obtain ⟨hkey, hdata⟩ := parseKeyed_bounds htyped
          simp at hkey hdata
          omega
      · obtain ⟨hkey, hdata⟩ := parseKeyed_bounds htyped
        simp at hkey hdata
        omega

def parseRequest (payload : List UInt8) (h : payload.length ≤ maxInnerPayload) :
    Option AppRequest :=
  (parseRaw payload).pmap (fun r hr => ⟨r.type, r.reqNonce, ⟨r.key, hr.1⟩, ⟨r.data, hr.2⟩⟩)
    fun _ hr => parseRaw_bounds h hr

/-- What the gateway sends over one connection. -/
def frame (type : RequestType) (key : RawKey) (data : Content) : List UInt8 :=
  type.code :: UInt8.ofNat key.1.length ::
    (key.1 ++ (bigEndian 2 data.1.length).toList ++ data.1)

/-! The replies. -/

def replyLen (reply : List UInt8) : Nat := valueList (reply.take 2)

def replyBody (reply : List UInt8) : List UInt8 := (reply.drop 2).take (replyLen reply)

def keyNotFound : List UInt8 := labelBytes "ERROR: key not found"

def contentStored : List UInt8 := labelBytes "Content stored successfully"

/-- `resp_cap`. -/
def respCap (type : RequestType) : Nat :=
  maxInnerPayload - if hasNonce type then slotNonceBytes else 0

/-- A reply that is too long is dropped. -/
def readReply (cap : Nat) (reply : List UInt8) : Option (List UInt8) :=
  if cap < replyLen reply then none else some (replyBody reply)

/-- Two connections: the first one only for the length. Those in `between` are served
between the two. -/
def relayGet (s : CacheState) (key : RawKey) (now : Nat) (between : List Connection) :
    Option (List UInt8) × CacheState :=
  let (probe, s) := handleConnection s (frame .get key noData) now
  if replyLen probe = 0 then (some keyNotFound, s)
  else
    let (reply, s) := handleConnection (Machine.run serve between s) (frame .get key noData) now
    (readReply maxInnerPayload reply, s)

/-- The status byte of the acknowledgement is not looked at. -/
def relayPut (s : CacheState) (key : RawKey) (data : Content) (now : Nat) :
    Option (List UInt8) × CacheState :=
  let (_, s) := handleConnection s (frame .put key data) now
  (some contentStored, s)

/-- The three-byte acknowledgement is reduced to its status byte. -/
def relayAck (s : CacheState) (type : RequestType) (key : RawKey) (data : Content) (now : Nat) :
    Option (List UInt8) × CacheState :=
  let (reply, s) := handleConnection s (frame type key data) now
  (some [reply.getD 2 0], s)

def relayVerbatim (s : CacheState) (type : RequestType) (key : RawKey) (now cap : Nat) :
    Option (List UInt8) × CacheState :=
  let (reply, s) := handleConnection s (frame type key noData) now
  (readReply cap reply, s)

/-- What the gateway has in `resp` behind the branches, and the cache server's new state. -/
def relay (s : CacheState) (r : AppRequest) (now : Nat) (between : List Connection) :
    Option (List UInt8) × CacheState :=
  match r.type with
  | .get => relayGet s r.key now between
  | .put => relayPut s r.key r.data now
  | .handshakeInit => relayAck s .handshakeInit r.key r.data now
  | .handshakePoll => relayVerbatim s .handshakePoll r.key now maxInnerPayload
  | .heartbeat => relayVerbatim s .heartbeat r.key now (respCap .heartbeat)
  | .handshakeRespond => relayAck s .handshakeRespond r.key r.data now

/-- The nonce goes in front of the response of a request that has one. -/
def withNonce (r : AppRequest) (resp : List UInt8) : List UInt8 :=
  if hasNonce r.type then r.reqNonce.toList ++ resp else resp

/-! The exchange. -/

theorem length_frameKey (key : RawKey) : (UInt8.ofNat key.1.length).toNat = key.1.length := by
  have h := key.2.2
  simp at h ⊢
  omega

/-- The cache server reads what the gateway sends. -/
theorem parseFrame_frame (type : RequestType) (key : RawKey) (data : Content) :
    parseFrame (frame type key data) = some ⟨type.code, cacheKey key, data⟩ := by
  have hkey := key.2
  have hdata := data.2
  have hklen := length_frameKey key
  have hdlen : valueList (((key.1 ++ (bigEndian 2 data.1.length).toList ++ data.1).drop
      key.1.length).take 2) = data.1.length := by
    rw [List.append_assoc, List.drop_left' rfl, List.take_left' (by simp)]
    exact value_bigEndian (by simp at hdata; omega)
  have hname : (key.1 ++ (bigEndian 2 data.1.length).toList ++ data.1).take key.1.length
      = key.1 := by
    rw [List.append_assoc, List.take_left' rfl]
  have htail : ((key.1 ++ (bigEndian 2 data.1.length).toList ++ data.1).drop
      (key.1.length + 2)).take data.1.length = data.1 := by
    rw [List.drop_left' (by simp), List.take_length]
  have hkeyOk : ¬ (UInt8.ofNat key.1.length = 0 ∨ maxKeyLen < key.1.length ∨
      (key.1 ++ (bigEndian 2 data.1.length).toList ++ data.1).length < key.1.length + 2) := by
    rintro (h | h | h)
    · have h0 : key.1.length = 0 := hklen.symm.trans (congrArg UInt8.toNat h)
      omega
    · omega
    · simp only [List.length_append, Bytes.length_eq] at h
      omega
  have hdataOk : ¬ (maxContentLen < data.1.length ∨
      (key.1 ++ (bigEndian 2 data.1.length).toList ++ data.1).length
        < key.1.length + 2 + data.1.length) := by
    rintro (h | h)
    · omega
    · simp at h
      omega
  simp only [frame, parseFrame, hklen]
  rw [dif_neg hkeyOk]
  simp only [hdlen]
  rw [dif_neg hdataOk]
  simp only [hname, htail]
  rfl

/-- What the cache server does with a request of the gateway. -/
theorem handleConnection_frame (s : CacheState) (type : RequestType) (key : RawKey)
    (data : Content) (now : Nat) :
    handleConnection s (frame type key data) now
      = serveFrame s ⟨type.code, cacheKey key, data⟩ now := by
  unfold handleConnection
  rw [parseFrame_frame]

theorem replyLen_framed {body : List UInt8} (h : body.length < 2 ^ 16) :
    replyLen (framed body) = body.length := by
  unfold replyLen framed
  rw [List.take_left' (by simp)]
  exact value_bigEndian h

theorem drop_framed (body : List UInt8) : (framed body).drop 2 = body :=
  List.drop_left' (by simp)

theorem readReply_framed {body : List UInt8} (cap : Nat) (h : body.length < 2 ^ 16) :
    readReply cap (framed body) = if cap < body.length then none else some body := by
  unfold readReply replyBody
  rw [replyLen_framed h, drop_framed, List.take_length]

theorem eq_noData_iff {content : Content} : content = noData ↔ content.1 = [] := Subtype.ext_iff

theorem handleConnection_get (s : CacheState) (key : RawKey) (now : Nat) {content : Content}
    (h : s.store.get (cacheKey key) = some content) :
    handleConnection s (frame .get key noData) now = (framed content.1, s) := by
  have hserve : serveFrame s ⟨typeGet, cacheKey key, noData⟩ now
      = (handleGet s (cacheKey key), s) := rfl
  have hget : handleGet s (cacheKey key) = framed content.1 := by
    unfold handleGet
    rw [h]
  exact (handleConnection_frame s .get key noData now).trans (hserve.trans (by rw [hget]))

/-- GET of a stored key: an empty content is taken for a missing one. -/
theorem relayGet_stored {s : CacheState} {key : RawKey} {now : Nat} {between : List Connection}
    {probe content : Content}
    (hprobe : s.store.get (cacheKey key) = some probe)
    (hcontent : (Machine.run serve between s).store.get (cacheKey key) = some content) :
    (relayGet s key now between).1 = some (if probe = noData then keyNotFound else content.1) := by
  have hsize := content.2
  have hlen : replyLen (framed probe.1) = probe.1.length := by
    have := probe.2
    exact replyLen_framed (by simp at this; omega)
  unfold relayGet
  rw [handleConnection_get s key now hprobe]
  dsimp only
  rw [hlen]
  by_cases hempty : probe = noData
  · rw [if_pos hempty, if_pos (by rw [eq_noData_iff.mp hempty]; rfl)]
  · have hne : probe.1.length ≠ 0 := fun h =>
      hempty (eq_noData_iff.mpr (List.eq_nil_of_length_eq_zero h))
    rw [if_neg hempty, if_neg hne, handleConnection_get _ key now hcontent,
      readReply_framed _ (by simp at hsize; omega), if_neg (by simp at hsize ⊢; omega)]

end AnonSecNet.Gateway
