import AnonSecNet.Foundation.Received
import AnonSecNet.Gateway.ReplyDelivery

/-! What the gateway answers when the cache server closes a connection too early: every
branch of `handle_connection` with the cells of its buffers. -/
namespace AnonSecNet.Gateway
open Octets Cache Cell

/-- What the branches find on their connections and on the stack: `none` for a connection
that is not made, else what is delivered before the connection ends. -/
structure Exchange where
  first : Option (List UInt8)
  second : Option (List UInt8)
  rb : Bytes 2
  ack : Bytes 3
  resp : Bytes maxInnerPayload

/-- The cells of a variable that nothing was written to. -/
def unwritten {n : Nat} (b : Bytes n) : List (Cell UInt8) := b.toList.map .memory

theorem length_unwritten {n : Nat} (b : Bytes n) : (unwritten b).length = n := by
  simp [unwritten]

/-- `(rb[0]<<8)|rb[1]`. -/
def cellsLen (rb : List (Cell UInt8)) : Nat := valueList (rb.map val)

/-- What a branch leaves to be sent, with the cells it was decided from. -/
inductive Answer where
  | notFound (len : List (Cell UInt8))
  | stored (ack : List (Cell UInt8))
  | status (ok : Cell UInt8)
  | content (len body : List (Cell UInt8))
  deriving DecidableEq

/-- `resp[0..rlen)`. -/
def Answer.resp : Answer → List UInt8
  | notFound _ => keyNotFound
  | stored _ => contentStored
  | status ok => [ok.val]
  | content _ body => body.map val

/-- Everything was received, and a fixed message is what was received says. -/
def Answer.Honest : Answer → Prop
  | notFound len => AllReceived len ∧ cellsLen len = 0
  | stored ack => AllReceived ack ∧ (ack.map val).getD 2 0 = 0x01
  | status ok => AllReceived [ok]
  | content len body => AllReceived len ∧ AllReceived body ∧ body.length = cellsLen len

/-- Length and body of one reply; the results of `net_recv_all` are not looked at. -/
def answerFetch (cap : Nat) (rb : List (Cell UInt8)) (resp : Bytes maxInnerPayload)
    (inp : List UInt8) : Option Answer :=
  let (rb, inp) := receive rb 2 inp
  let rl := cellsLen rb
  if cap < rl then none
  else
    let (resp, _) := receive (unwritten resp) rl inp
    if rl = 0 then none else some (.content rb (resp.take rl))

/-- The second connection reads its length into the same `rb`. -/
def answerGet (e : Exchange) : Option Answer :=
  e.first.bind fun inp =>
    let (rb, _) := receive (unwritten e.rb) 2 inp
    if cellsLen rb = 0 then some (.notFound rb)
    else e.second.bind (answerFetch maxInnerPayload rb e.resp)

def answerPut (e : Exchange) : Option Answer :=
  e.first.map fun inp => .stored (receive (unwritten e.ack) 3 inp).1

def answerAck (e : Exchange) : Option Answer :=
  e.first.map fun inp => .status ((receive (unwritten e.ack) 3 inp).1.getD 2 (.memory 0))

def answerVerbatim (cap : Nat) (e : Exchange) : Option Answer :=
  e.first.bind (answerFetch cap (unwritten e.rb) e.resp)

/-- What a request of the type makes the gateway send, if anything. -/
def answer (type : RequestType) (e : Exchange) : Option Answer :=
  match type with
  | .get => answerGet e
  | .put => answerPut e
  | .handshakeInit | .handshakeRespond => answerAck e
  | .handshakePoll => answerVerbatim maxInnerPayload e
  | .heartbeat => answerVerbatim (respCap .heartbeat) e

/-! The replies of the cache server of `Relay`, delivered whole. -/

/-- The connections of a request that the cache server answers. -/
def servedExchange (s : CacheState) (r : AppRequest) (now : Nat) (between : List Connection)
    (rb : Bytes 2) (ack : Bytes 3) (resp : Bytes maxInnerPayload) : Exchange :=
  let (reply, s) :=
    handleConnection s (frame r.type r.key (if carriesData r.type then r.data else noData)) now
  let (reply', _) := handleConnection (Machine.run serve between s) (frame .get r.key noData) now
  ⟨some reply, some reply', rb, ack, resp⟩

def WholeReply (reply : List UInt8) : Prop := 2 + replyLen reply ≤ reply.length

theorem wholeReply_framed (body : List UInt8) (h : body.length < 2 ^ 16) :
    WholeReply (framed body) := by
  unfold WholeReply
  rw [replyLen_framed h]
  simp [framed]

theorem handleGet_whole (s : CacheState) (key : CacheKey) : WholeReply (handleGet s key) := by
  unfold handleGet
  split
  · exact wholeReply_framed [] (by decide)
  · rename_i content _
    have := content.2
    exact wholeReply_framed _ (by simp at this; omega)

theorem handleHandshakeInit_length (s : CacheState) (key : CacheKey) (data : Content)
    (now : Nat) : (handleHandshakeInit s key data now).1.length = 3 := by
  unfold handleHandshakeInit
  split
  · split <;> rfl
  · rfl

theorem handleHandshakeRespond_length (s : CacheState) (key : CacheKey) (data : Content) :
    (handleHandshakeRespond s key data).1.length = 3 := by
  unfold handleHandshakeRespond
  split
  · split <;> rfl
  · rfl

/-- A reply that is there as a whole goes through as `readReply` has it. -/
theorem answerFetch_whole {rb : List (Cell UInt8)} (hrb : rb.length = 2) (cap : Nat)
    (resp : Bytes maxInnerPayload) {reply : List UInt8}
    (h : WholeReply reply) :
    (answerFetch cap rb resp reply).map Answer.resp
      = (readReply cap reply).filter (fun resp => !resp.isEmpty) := by
  unfold WholeReply at h
  have htake := take_receive (show 2 ≤ reply.length by omega) rb
  rw [List.take_of_length_le ((length_receive hrb.ge reply).trans hrb).le] at htake
  have hlen : cellsLen (receive rb 2 reply).1 = replyLen reply := by
    unfold cellsLen replyLen
    rw [htake, map_val_received]
  have hrest : (receive rb 2 reply).2 = reply.drop 2 := by
    unfold receive
    rw [if_neg (by omega)]
  unfold answerFetch readReply
  dsimp only
  rw [hlen, hrest]
  by_cases hlarge : cap < replyLen reply
  · simp [hlarge]
  have hbody : (receive (unwritten resp) (replyLen reply) (reply.drop 2)).1.take (replyLen reply)
      = (replyBody reply).map .received := take_receive (by simp; omega) _
  have hsize : (replyBody reply).length = replyLen reply := by
    simp [replyBody]
    omega
  rw [if_neg hlarge, if_neg hlarge, hbody]
  by_cases hnone : replyLen reply = 0
  · rw [if_pos hnone, List.eq_nil_of_length_eq_zero (hsize.trans hnone)]
    rfl
  · have hne : replyBody reply ≠ [] := fun hnil => hnone (by rw [← hsize, hnil]; rfl)
    rw [if_neg hnone, Option.map_some, Answer.resp, map_val_received,
      Option.filter_some_pos (by simpa using hne)]

theorem answerAck_whole {e : Exchange} {reply : List UInt8} (he : e.first = some reply)
    (h : reply.length = 3) :
    (answerAck e).map Answer.resp = some [reply.getD 2 0] := by
  have hcells := take_receive h.ge (unwritten e.ack)
  rw [List.take_of_length_le ((length_receive (length_unwritten e.ack).ge reply).trans
    (length_unwritten e.ack)).le, List.take_of_length_le h.le] at hcells
  unfold answerAck
  rw [he, Option.map_some, hcells]
  match reply, h with
  | [_, _, _], _ => rfl

theorem answerGet_whole {e : Exchange} {probe reply : List UInt8} (hfirst : e.first = some probe)
    (hsecond : e.second = some reply) (hprobe : WholeReply probe) (hreply : WholeReply reply) :
    (answerGet e).map Answer.resp
      = (if replyLen probe = 0 then some keyNotFound
          else readReply maxInnerPayload reply).filter (fun resp => !resp.isEmpty) := by
  unfold WholeReply at hprobe
  have hrb : (receive (unwritten e.rb) 2 probe).1.length = 2 :=
    (length_receive (length_unwritten e.rb).ge probe).trans (length_unwritten e.rb)
  have htake := take_receive (show 2 ≤ probe.length by omega) (unwritten e.rb)
  rw [List.take_of_length_le hrb.le] at htake
  have hlen : cellsLen (receive (unwritten e.rb) 2 probe).1 = replyLen probe := by
    unfold cellsLen replyLen
    rw [htake, map_val_received]
  unfold answerGet
  rw [hfirst, hsecond]
  dsimp only [Option.bind_some]
  rw [hlen]
  by_cases hnone : replyLen probe = 0
  · rw [if_pos hnone, if_pos hnone]
    rfl
  · rw [if_neg hnone, if_neg hnone]
    exact answerFetch_whole hrb _ e.resp hreply

/-- On replies that are delivered whole the branches send what `relay` sends. -/
theorem answer_served (s : CacheState) (r : AppRequest) (now : Nat) (between : List Connection)
    (rb : Bytes 2) (ack : Bytes 3) (resp : Bytes maxInnerPayload) :
    (answer r.type (servedExchange s r now between rb ack resp)).map Answer.resp
      = (relay s r now between).1.filter (fun resp => !resp.isEmpty) := by
  obtain ⟨type, reqNonce, key, data⟩ := r
  have hget : ∀ s now, WholeReply (handleConnection s (frame .get key noData) now).1 :=
    fun s now => by
      rw [handleConnection_frame]
      exact handleGet_whole s (cacheKey key)
  cases type with
  | get =>
    refine (answerGet_whole rfl rfl (hget s now) (hget _ now)).trans ?_
    unfold relay relayGet
    dsimp only
    split <;> rfl
  | put => rfl
  | handshakeInit =>
    refine answerAck_whole rfl ?_
    exact (congrArg (List.length ·.1) (handleConnection_frame s .handshakeInit key data now)).trans
      (handleHandshakeInit_length s (cacheKey key) data now)
  | handshakeRespond =>
    refine answerAck_whole rfl ?_
    exact (congrArg (List.length ·.1)
      (handleConnection_frame s .handshakeRespond key data now)).trans
      (handleHandshakeRespond_length s (cacheKey key) data)
  | handshakePoll =>
    refine answerFetch_whole (length_unwritten rb) _ resp ?_
    obtain ⟨-, hlen⟩ := handleHandshakePoll_reply s (cacheKey key)
    have hframed := wholeReply_framed (handleHandshakePoll s (cacheKey key)).1
      (by simp at hlen; omega)
    exact (congrArg (WholeReply ·.1)
      (handleConnection_frame s .handshakePoll key noData now)).mpr hframed
  | heartbeat =>
    refine answerFetch_whole (length_unwritten rb) _ resp ?_
    have hlen := length_handleHeartbeat_le s
    have hframed := wholeReply_framed (handleHeartbeat s) (by simp at hlen; omega)
    exact (congrArg (WholeReply ·.1)
      (handleConnection_frame s .heartbeat key noData now)).mpr hframed

/-! Where the replies are whole. -/

/-- `rb` behind the read of a length, over what was in it. -/
def readLen (old : List UInt8) (inp : List UInt8) : List UInt8 :=
  inp.take 2 ++ old.drop (min 2 inp.length)

/-- Nothing to fetch, too much to fetch, or all of it delivered. -/
def Fetched (cap : Nat) (old inp : List UInt8) : Prop :=
  valueList (readLen old inp) = 0 ∨ cap < valueList (readLen old inp) ∨
    2 + valueList (readLen old inp) ≤ inp.length

def Acknowledged (inp : List UInt8) : Prop := 3 ≤ inp.length

def GetUncut (e : Exchange) : Prop :=
  ∀ inp ∈ e.first,
    if valueList (readLen e.rb.toList inp) = 0 then 2 ≤ inp.length
    else ∀ inp' ∈ e.second, Fetched maxInnerPayload (readLen e.rb.toList inp) inp'

def Uncut (type : RequestType) (e : Exchange) : Prop :=
  match type with
  | .get => GetUncut e
  | .put => ∀ inp ∈ e.first, Acknowledged inp ∧ inp.getD 2 0 = 0x01
  | .handshakeInit | .handshakeRespond => ∀ inp ∈ e.first, Acknowledged inp
  | .handshakePoll => ∀ inp ∈ e.first, Fetched maxInnerPayload e.rb.toList inp
  | .heartbeat => ∀ inp ∈ e.first, Fetched (respCap .heartbeat) e.rb.toList inp

/-! The branches. -/

/-- A variable that is read as a whole. -/
theorem allReceived_unwritten {n : Nat} (b : Bytes n) (inp : List UInt8) :
    AllReceived (receive (unwritten b) n inp).1 ↔ n ≤ inp.length := by
  have hlen : (receive (unwritten b) n inp).1.length = n :=
    (length_receive (length_unwritten b).ge inp).trans (length_unwritten b)
  have htake := allReceived_receive (show n ≤ b.toList.length by simp) inp
  unfold unwritten at hlen ⊢
  rwa [List.take_of_length_le hlen.le] at htake

theorem cellsLen_receive {rb : List (Cell UInt8)} {old : List UInt8} (h : rb.map val = old)
    (inp : List UInt8) : cellsLen (receive rb 2 inp).1 = valueList (readLen old inp) := by
  unfold cellsLen readLen
  rw [map_val_receive, h]

theorem map_val_unwritten {n : Nat} (b : Bytes n) : (unwritten b).map val = b.toList :=
  map_val_memory _

theorem map_val_readLen {rb : List (Cell UInt8)} {old : List UInt8} (h : rb.map val = old)
    (inp : List UInt8) : (receive rb 2 inp).1.map val = readLen old inp := by
  rw [map_val_receive, h]
  rfl

/-- A reply that is fetched is answered honestly where it is delivered. -/
theorem answerFetch_honest {cap : Nat} (hcap : cap ≤ maxInnerPayload) {rb : List (Cell UInt8)}
    {old : List UInt8} (hold : rb.map val = old) (hrb : rb.length = 2)
    (resp : Bytes maxInnerPayload) (inp : List UInt8) :
    (∀ a ∈ answerFetch cap rb resp inp, a.Honest) ↔ Fetched cap old inp := by
  have hcap' : maxInnerPayload = 463 := rfl
  have hlen := cellsLen_receive hold inp
  unfold answerFetch Fetched
  dsimp only
  rw [hlen]
  generalize hrl : valueList (readLen old inp) = rl at hlen ⊢
  by_cases hlarge : cap < rl
  · simp [hlarge]
  by_cases hnone : rl = 0
  · simp [hnone]
  rw [if_neg hlarge, if_neg hnone]
  have hbody := allReceived_receive (show rl ≤ resp.toList.length by simp; omega)
    (receive rb 2 inp).2
  have hsize : ((receive (unwritten resp) rl (receive rb 2 inp).2).1.take rl).length = rl := by
    rw [List.length_take, length_receive (by rw [length_unwritten]; omega), length_unwritten]
    omega
  have hrest : (receive rb 2 inp).2.length = inp.length - 2 := by
    unfold receive
    split <;> simp
    omega
  rw [hrest] at hbody
  simp only [Option.mem_some_iff, forall_eq', Answer.Honest, hlen, hnone, hlarge, false_or]
  constructor
  · rintro ⟨-, hall, -⟩
    have := hbody.mp hall
    omega
  · intro hwhole
    have htake := take_receive (show 2 ≤ inp.length by omega) rb
    rw [List.take_of_length_le ((length_receive hrb.ge inp).trans hrb).le] at htake
    refine ⟨?_, hbody.mpr (by omega), hsize⟩
    rw [htake]
    exact allReceived_map _

theorem answerGet_honest (e : Exchange) : (∀ a ∈ answerGet e, a.Honest) ↔ GetUncut e := by
  unfold answerGet GetUncut
  cases e.first with
  | none => simp
  | some inp =>
    have hold := map_val_readLen (map_val_unwritten e.rb) inp
    have hlen := cellsLen_receive (map_val_unwritten e.rb) inp
    have hrb : (receive (unwritten e.rb) 2 inp).1.length = 2 :=
      (length_receive (length_unwritten e.rb).ge inp).trans (length_unwritten e.rb)
    simp only [Option.bind_some, Option.mem_some_iff, forall_eq']
    by_cases hzero : valueList (readLen e.rb.toList inp) = 0
    · simp only [hlen, hzero, if_true, Option.mem_some_iff, forall_eq', Answer.Honest, and_true]
      exact allReceived_unwritten e.rb inp
    · simp only [hlen, hzero, if_false]
      cases e.second with
      | none => simp
      | some inp' =>
        simp only [Option.bind_some, Option.mem_some_iff, forall_eq']
        exact answerFetch_honest (Nat.le_refl _) hold hrb e.resp inp'

theorem answerPut_honest (e : Exchange) :
    (∀ a ∈ answerPut e, a.Honest) ↔
      ∀ inp ∈ e.first, Acknowledged inp ∧ inp.getD 2 0 = 0x01 := by
  unfold answerPut
  cases e.first with
  | none => simp
  | some inp =>
    simp only [Option.map_some, Option.mem_some_iff, forall_eq', Answer.Honest]
    rw [allReceived_unwritten]
    refine and_congr_right fun hwhole => ?_
    rw [map_val_receive, Nat.min_eq_left hwhole, List.drop_eq_nil_of_le (by simp [unwritten]),
      List.append_nil]
    simp [List.getD]

theorem answerAck_honest (e : Exchange) :
    (∀ a ∈ answerAck e, a.Honest) ↔ ∀ inp ∈ e.first, Acknowledged inp := by
  unfold answerAck
  cases e.first with
  | none => simp
  | some inp =>
    have hlast := isReceived_last (show 2 < e.ack.toList.length by simp) inp (.memory 0)
    simpa [Answer.Honest, AllReceived, Acknowledged, unwritten] using hlast

theorem answerVerbatim_honest {cap : Nat} (hcap : cap ≤ maxInnerPayload) (e : Exchange) :
    (∀ a ∈ answerVerbatim cap e, a.Honest) ↔ ∀ inp ∈ e.first, Fetched cap e.rb.toList inp := by
  unfold answerVerbatim
  cases e.first with
  | none => simp
  | some inp =>
    simp only [Option.bind_some, Option.mem_some_iff, forall_eq']
    exact answerFetch_honest hcap (map_val_unwritten e.rb) (length_unwritten e.rb) e.resp inp

/-- The gateway answers with nothing but what it received exactly where the connections of
the request are not cut off. -/
theorem answers_are_received_iff (type : RequestType) (e : Exchange) :
    (∀ a ∈ answer type e, a.Honest) ↔ Uncut type e := by
  cases type with
  | get => exact answerGet_honest e
  | put => exact answerPut_honest e
  | handshakeInit => exact answerAck_honest e
  | handshakeRespond => exact answerAck_honest e
  | handshakePoll => exact answerVerbatim_honest (Nat.le_refl _) e
  | heartbeat => exact answerVerbatim_honest (Nat.sub_le _ _) e

/-- A HEARTBEAT whose connection ends behind the length of its reply. -/
def cutHeartbeat : Exchange where
  first := some [0, 3]
  second := none
  rb := Bytes.zero _
  ack := Bytes.zero _
  resp := Bytes.fit _ [7, 8, 9]

/-- Three bytes of the stack are sent as the listing of the waiting handshakes. -/
theorem cut_heartbeat_sends_memory :
    answer .heartbeat cutHeartbeat
        = some (.content [.received 0, .received 3] [.memory 7, .memory 8, .memory 9]) ∧
      ¬ ∀ (type : RequestType) (e : Exchange), ∀ a ∈ answer type e, a.Honest := by
  have hanswer : answer .heartbeat cutHeartbeat
      = some (.content [.received 0, .received 3] [.memory 7, .memory 8, .memory 9]) := by
    decide +kernel
  refine ⟨hanswer, fun h => ?_⟩
  have hhonest := h .heartbeat cutHeartbeat _ hanswer
  exact Bool.noConfusion (hhonest.2.1 (.memory 7) (by simp))

end AnonSecNet.Gateway
