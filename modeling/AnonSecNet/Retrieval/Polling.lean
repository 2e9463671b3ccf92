import AnonSecNet.Cache.PendingTable
import AnonSecNet.Retrieval.Fetch

/-! The polls of one handshake over a network that may lose them and their replies, with the
connections of everybody else in between. -/
namespace AnonSecNet.Retrieval
open Octets Cache Gateway Machine
variable (key : RawKey)

/-- What one try of `perform_content_handshake` makes of what `wait_response` has: the body of a
response that is ready, or nothing, and then the loop goes on. -/
def readyBody : Option (List UInt8) → Option (List UInt8)
  | some (status :: body) => if status = 0x00 then none else some body
  | _ => none

structure Polling where
  cache : CacheState
  tries : Nat
  got : Option (List UInt8)

inductive Happening where
  /-- A connection that is no poll of this client. -/
  | served (c : Connection)
  /-- A try of the client: whether the POLL reaches the server, and whether the reply to it
  reaches the client. -/
  | poll (now : Nat) (arrives delivered : Bool)

def Polling.step (r : Polling) : Happening → Polling
  | .served c => { r with cache := serve r.cache c }
  | .poll now arrives delivered =>
    if r.got.isSome ∨ handshakePollMaxTries ≤ r.tries then r
    else if arrives then
      let (resp, cache) := relay r.cache ⟨.handshakePoll, Bytes.zero _, key, noData⟩ now []
      ⟨cache, r.tries + 1, readyBody (if delivered then resp else none)⟩
    else { r with tries := r.tries + 1 }

/-- In the tries that are left a POLL reaches the server, and the reply to the first of these is
delivered; nobody has taken the entry before, and the response is what was posted last for it. -/
def HandedOver (key : CacheKey) (resp : List UInt8) :
    Nat → CacheState → List UInt8 → List Happening → Prop
  | _, _, _, [] => False
  | n, s, said, .served c :: as => ¬ c.Takes s key ∧
      ∃ said', c.LastPost s key said said' ∧ HandedOver key resp n (serve s c) said' as
  | 0, _, _, .poll .. :: _ => False
  | n + 1, s, said, .poll _ arrives delivered :: as =>
    if arrives then delivered = true ∧ said = resp else HandedOver key resp n s said as

/-- Whether any reply is delivered in the tries that are left. -/
def someDelivered : Nat → List Happening → Bool
  | _, [] => false
  | n, .served _ :: as => someDelivered n as
  | 0, .poll .. :: _ => false
  | n + 1, .poll _ arrives delivered :: as => arrives && delivered || someDelivered n as

/-- The connection is a request of this type for the key, and it is accepted. -/
def Accepted (s : CacheState) (c : Connection) (type : RequestType) (data : List UInt8) : Prop :=
  ∃ f, parseFrame c.inp = some f ∧ RequestType.ofCode f.type = some type ∧
    f.key = cacheKey key ∧ f.data.1 = data ∧ (handleConnection s c.inp c.now).1 = ackReply true

/-- No second handshake is answered under the key: a RESPOND is accepted only where there is a
response. -/
def Polling.OneHandshake (r : Polling) : Happening → Prop
  | .served c => ∀ resp, c.Posts r.cache (cacheKey key) resp →
      ∃ p, HoldsPending r.cache p ∧ p.key = cacheKey key ∧ p.ready = true
  | .poll .. => True

/-! Each kind of step. -/

section
variable {key} {r : Polling} {p : PendingHandshake}

theorem step_got (h : r.got.isSome) (a : Happening) : (r.step key a).got = r.got := by
  cases a with
  | served c => rfl
  | poll now arrives delivered =>
    unfold Polling.step
    dsimp only
    rw [if_pos (.inl h)]

/-- The loop has ended. -/
theorem run_got (h : r.got.isSome) (as : List Happening) :
    (Machine.run (Polling.step key) as r).got = r.got := by
  induction as generalizing r with
  | nil => rfl
  | cons a as ih =>
    have hsame : (r.step key a).got = r.got := step_got h a
    exact (ih (hsame ▸ h)).trans hsame

theorem run_exhausted (h : handshakePollMaxTries ≤ r.tries) (as : List Happening) :
    (Machine.run (Polling.step key) as r).got = r.got := by
  induction as generalizing r with
  | nil => rfl
  | cons a as ih =>
    cases a with
    | served c => exact ih h
    | poll now arrives delivered =>
      have hstop : r.step key (.poll now arrives delivered) = r := if_pos (.inr h)
      have hrest := ih h
      rw [← hstop] at hrest
      exact hrest.trans (congrArg Polling.got hstop)

/-- A try of the loop. -/
theorem step_poll (hgot : r.got = none) (htries : r.tries < handshakePollMaxTries) (now : Nat)
    (arrives delivered : Bool) :
    r.step key (.poll now arrives delivered)
      = if arrives then
          ⟨(handleHandshakePoll r.cache (cacheKey key)).2, r.tries + 1,
            if delivered then readyBody (some (handleHandshakePoll r.cache (cacheKey key)).1)
            else none⟩
        else { r with tries := r.tries + 1 } := by
  have hgo : ¬ (r.got.isSome ∨ handshakePollMaxTries ≤ r.tries) := by
    rw [hgot]
    rintro (h | h)
    · cases h
    · omega
  have hrelay : relay r.cache ⟨.handshakePoll, Bytes.zero _, key, noData⟩ now [] = _ :=
    relay_poll rfl
  unfold Polling.step
  dsimp only
  rw [if_neg hgo, hrelay]
  cases arrives <;> cases delivered <;> rfl

/-! The phases of a run. -/

def Happening.isPoll : Happening → Bool
  | .served _ => false
  | .poll .. => true

theorem step_reachable (r : Polling) (a : Happening) (h : Reachable r.cache) :
    Reachable (r.step key a).cache := by
  cases a with
  | served c => exact h.serve c
  | poll now arrives delivered =>
    have hpoll := h.serve (opened ⟨.handshakePoll, Bytes.zero _, key, noData⟩ now)
    unfold serve opened at hpoll
    rw [handleConnection_frame] at hpoll
    unfold Polling.step
    dsimp only
    split
    · exact h
    · split
      · rw [relay_poll rfl]
        exact hpoll
      · exact h

/-- As long as the client has nothing, every poll is a try. -/
theorem run_tries {u : List Happening} (hwaits : (Machine.run (Polling.step key) u r).got = none) :
    handshakePollMaxTries - (Machine.run (Polling.step key) u r).tries
      = handshakePollMaxTries - (r.tries + u.countP (·.isPoll)) := by
  induction u generalizing r with
  | nil => rfl
  | cons a u ih =>
    have hgot : r.got = none := by
      by_contra hsome
      have hstays : (Machine.run (Polling.step key) (a :: u) r).got = r.got :=
        run_got (Option.isSome_iff_ne_none.mpr hsome) (a :: u)
      exact hsome (hstays.symm.trans hwaits)
    have hrest := ih (r := r.step key a) hwaits
    cases a with
    | served c => exact hrest
    | poll now arrives delivered =>
      have hcount : (Happening.poll now arrives delivered :: u).countP (·.isPoll)
          = u.countP (·.isPoll) + 1 := List.countP_cons_of_pos rfl
      refine hrest.trans ?_
      rw [hcount]
      by_cases htries : r.tries < handshakePollMaxTries
      · have htry : (r.step key (.poll now arrives delivered)).tries = r.tries + 1 := by
          rw [step_poll hgot htries]
          split <;> rfl
        rw [htry]
        omega
      · have hsame : r.step key (.poll now arrives delivered) = r := if_pos (.inr (by omega))
        rw [hsame]
        omega

/-- While nothing is posted, every reply has status 0. -/
theorem run_idle {u : List Happening} (hidle : Idle r.cache.pending (cacheKey key))
    (hgot : r.got = none) (hone : StepsMeet (Polling.step key) (Polling.OneHandshake key) u r) :
    (Machine.run (Polling.step key) u r).got = none := by
  induction u generalizing r with
  | nil => exact hgot
  | cons a u ih =>
    obtain ⟨hfirst, hrest⟩ := hone
    cases a with
    | served c =>
      have hposts : ∀ resp, ¬ c.Posts r.cache (cacheKey key) resp := by
        intro resp hresp
        obtain ⟨p, ⟨i, hfind, rfl⟩, hkey, hready⟩ := hfirst resp hresp
        rw [hkey] at hfind
        exact Bool.noConfusion ((pendingFind_idle hidle hfind).symm.trans hready)
      exact ih (r := { r with cache := serve r.cache c }) (hidle.serve hposts) hgot hrest
    | poll now arrives delivered =>
      have hnext : (r.step key (.poll now arrives delivered)).cache = r.cache ∧
          (r.step key (.poll now arrives delivered)).got = none := by
        by_cases htries : r.tries < handshakePollMaxTries
        · rw [step_poll hgot htries, handleHandshakePoll_waits hidle]
          cases arrives <;> cases delivered <;> simp [readyBody, hgot]
        · have hsame : r.step key (.poll now arrives delivered) = r := if_pos (.inr (by omega))
          rw [hsame]
          exact ⟨rfl, hgot⟩
      exact ih (r := r.step key (.poll now arrives delivered)) (hnext.1 ▸ hidle) hnext.2 hrest

/-- Once a response is posted, the first POLL that arrives decides, if the entry is still there. -/
theorem run_ready {as : List Happening} (hholds : HoldsPending r.cache p)
    (hkey : p.key = cacheKey key) (hready : p.ready = true) (hgot : r.got = none)
    (hreach : Reachable r.cache)
    (hone : StepsMeet (Polling.step key) (Polling.OneHandshake key) as r) (resp : List UInt8) :
    (Machine.run (Polling.step key) as r).got = some resp ↔
      HandedOver (cacheKey key) resp (handshakePollMaxTries - r.tries) r.cache p.respData.1 as := by
  induction as generalizing r p with
  | nil =>
    change r.got = _ ↔ _
    rw [hgot]
    exact iff_of_false nofun id
  | cons a as ih =>
    obtain ⟨hfirst, hrest⟩ := hone
    cases a with
    | served c =>
      unfold HandedOver
      by_cases htakes : c.Takes r.cache (cacheKey key)
      · have hrun := run_idle (r := { r with cache := serve r.cache c }) (htakes.idle hreach) hgot
          hrest
        exact iff_of_false (fun h => nomatch hrun.symm.trans h) fun h => h.1 htakes
      · obtain ⟨q, hq, hqkey, hqready, hlast⟩ := hholds.undisturbed hready (hkey ▸ htakes)
        rw [hkey] at hqkey hlast
        rw [and_iff_right htakes]
        refine (ih (r := { r with cache := serve r.cache c }) hq hqkey hqready hgot
          (hreach.serve c) hrest).trans ⟨fun h => ⟨_, hlast, h⟩, ?_⟩
        rintro ⟨said, hsaid, h⟩
        exact hsaid.unique hlast ▸ h
    | poll now arrives delivered =>
      by_cases htries : r.tries < handshakePollMaxTries
      · obtain ⟨n, hn⟩ : ∃ n, handshakePollMaxTries - r.tries = n + 1 :=
          ⟨handshakePollMaxTries - (r.tries + 1), by omega⟩
        have hreply : readyBody (some (handleHandshakePoll r.cache (cacheKey key)).1)
            = some p.respData.1 := by
          rw [← hkey, handleHandshakePoll_ready hholds hready]
          rfl
        have hstep : r.step key (.poll now arrives delivered) = _ :=
          step_poll hgot htries now arrives delivered
        rw [hn]
        unfold HandedOver
        change (Machine.run (Polling.step key) as (r.step key _)).got = _ ↔ _
        rw [hstep] at hrest ⊢
        cases arrives with
        | false =>
          have hrun := ih (r := { r with tries := r.tries + 1 }) hholds hkey hready hgot hreach
            hrest
          rw [show handshakePollMaxTries - (r.tries + 1) = n by omega] at hrun
          exact hrun
        | true =>
          cases delivered with
          | true =>
            simp only [↓reduceIte, true_and]
            rw [run_got (by rw [hreply]; rfl)]
            dsimp only
            rw [hreply, Option.some.injEq]
          | false =>
            obtain ⟨i, hfind, hp⟩ := hholds
            rw [hkey] at hfind
            have hidle := handleHandshakePoll_idle hreach hfind (hp ▸ hready)
            have hrun := run_idle hidle rfl hrest
            simp only [↓reduceIte, Bool.false_eq_true, false_and, iff_false]
            exact fun h => nomatch hrun.symm.trans h
      · rw [show handshakePollMaxTries - r.tries = 0 by omega,
          run_exhausted (by omega), hgot]
        exact iff_of_false nofun id

/-! From INIT on. -/

variable {s : CacheState} {c : Connection}

theorem Accepted.respond {resp : List UInt8} (h : Accepted key s c .handshakeRespond resp) :
    ∃ p : PendingHandshake, HoldsPending (serve s c) p ∧ p.key = cacheKey key ∧ p.ready = true ∧
      p.respData.1 = resp := by
  obtain ⟨f, hf, htype, hkey, rfl, hreply⟩ := h
  have hserve : handleConnection s c.inp c.now = handleHandshakeRespond s f.key f.data := by
    unfold handleConnection
    rw [hf]
    dsimp only
    unfold serveFrame
    rw [htype]
  rw [hserve] at hreply
  have hok : (ecPubkeyLen + 2 ≤ f.data.1.length ∧ f.data.1.length ≤ maxRespData) ∧
      ∃ i, pendingFind s f.key = some i := by
    unfold handleHandshakeRespond at hreply
    split at hreply
    · rename_i hdata
      split at hreply
      · rename_i i hfind
        exact ⟨hdata, i, hfind⟩
      · exact absurd hreply ackReply_refused
    · exact absurd hreply ackReply_refused
  obtain ⟨hdata, i, hfind⟩ := hok
  have hslot := (pendingFind_eq_some hfind).2
  have hholds : HoldsPending s (s.pending i) := ⟨i, hslot.symm ▸ hfind, rfl⟩
  have hposted := handleHandshakeRespond_holds hholds hdata
  rw [hslot, ← hserve] at hposted
  exact ⟨_, hposted, hkey, rfl, rfl⟩

end

/-- The client behind its INIT. -/
def afterInit (s : CacheState) (init : Connection) : Polling := ⟨serve s init, 0, none⟩

/-- A client that has nothing yet when a response is posted gets this exactly if the first POLL that
reaches the server from then on has its reply delivered, and nobody else has taken the entry or
written another response there before. -/
theorem response_obtained_iff (cs : List Connection) (init respond : Connection)
    (u v : List Happening) (resp : List UInt8)
    (hwaits : (Machine.run (Polling.step key) u
      (afterInit (Machine.run serve cs .initial) init)).got = none)
    (hrespond : Accepted key (Machine.run (Polling.step key) u
      (afterInit (Machine.run serve cs .initial) init)).cache respond .handshakeRespond resp)
    (hv : StepsMeet (Polling.step key) (Polling.OneHandshake key) v
      (Machine.run (Polling.step key) (u ++ [.served respond])
        (afterInit (Machine.run serve cs .initial) init))) :
    (Machine.run (Polling.step key) (u ++ .served respond :: v)
        (afterInit (Machine.run serve cs .initial) init)).got = some resp ↔
      HandedOver (cacheKey key) resp (handshakePollMaxTries - u.countP (·.isPoll))
        (Machine.run (Polling.step key) (u ++ [.served respond])
          (afterInit (Machine.run serve cs .initial) init)).cache resp v := by
  have hreach : Reachable (serve (Machine.run serve cs .initial) init) :=
    Reachable.serve ⟨cs, rfl⟩ init
  have htries := run_tries hwaits
  have hreach' := run_keeps (Polling.step key) (fun r => Reachable r.cache) step_reachable u
    (s := afterInit (Machine.run serve cs .initial) init) hreach
  obtain ⟨q, hposted, hqkey, hqready, rfl⟩ := hrespond.respond
  rw [run_concat] at hv ⊢
  have hrest := run_ready (r := Polling.step key (Machine.run (Polling.step key) u
      (afterInit (Machine.run serve cs .initial) init)) (.served respond))
    hposted hqkey hqready hwaits (hreach'.serve respond) hv q.respData.1
  have hstart : (afterInit (Machine.run serve cs .initial) init).tries = 0 := rfl
  rw [hstart, Nat.zero_add] at htries
  rw [run_append, ← htries]
  exact hrest

def pollKey : RawKey := mykeyWire

def pollRequest (type : RequestType) (key : RawKey) (data : Content) (now : Nat) : Connection :=
  opened ⟨type, Bytes.zero _, key, data⟩ now

def pollPub : Content := ⟨List.replicate ecPubkeyLen 4, by decide⟩

def pollResp : Content := ⟨List.replicate (ecPubkeyLen + 2) 5, by decide⟩

def pollInit : Connection := pollRequest .handshakeInit pollKey pollPub 0

def pollRespond : Connection := pollRequest .handshakeRespond pollKey pollResp 0

/-- Others ask too: one before the client, and one when both entries are stale. -/
def otherInit : Connection := pollRequest .handshakeInit ⟨[111], by decide⟩ pollPub 0

def lateInit : Connection := pollRequest .handshakeInit ⟨[112], by decide⟩ pollPub 31000

/-- And somebody posts another response for the key. -/
def otherResp : Content := ⟨List.replicate (ecPubkeyLen + 2) 6, by decide⟩

def otherRespond : Connection := pollRequest .handshakeRespond pollKey otherResp 0

/-- A poll that comes too early, and one that does not arrive. -/
def earlyPoll : Happening := .poll 0 true true
def lostPoll : Happening := .poll 0 false false

theorem parse_pollRequest (type : RequestType) (k : RawKey) (data : Content) (now : Nat) :
    parseFrame (pollRequest type k data now).inp = some ⟨type.code, cacheKey k, data⟩ :=
  parseFrame_frame type k data

theorem pollRequest_accepted {s : CacheState} {type : RequestType} {k : RawKey} {data : Content}
    {now : Nat} (h : (handleConnection s (pollRequest type k data now).inp now).1 = ackReply true) :
    Accepted k s (pollRequest type k data now) type data.1 :=
  ⟨_, parse_pollRequest type k data now, type.ofCode_code, rfl, rfl, h⟩

theorem pollRequest_posts {s : CacheState} {k : RawKey} {data : Content} {now : Nat}
    (h : (handleConnection s (pollRequest .handshakeRespond k data now).inp now).1
      = ackReply true) :
    (pollRequest .handshakeRespond k data now).Posts s (cacheKey k) data.1 := by
  have hparse := parse_pollRequest .handshakeRespond k data now
  unfold handleConnection at h
  rw [hparse] at h
  exact ⟨_, hparse, ⟨RequestType.handshakeRespond.ofCode_code, rfl⟩, rfl, h⟩

theorem posts_pollRequest {s : CacheState} {key : CacheKey} {type : RequestType} {k : RawKey}
    {data : Content} {now : Nat} {resp : List UInt8}
    (h : (pollRequest type k data now).Posts s key resp) :
    type = .handshakeRespond ∧ data.1 = resp := by
  obtain ⟨f, hf, hposts⟩ := h
  obtain rfl := Option.some.inj ((parse_pollRequest type k data now).symm.trans hf)
  have htype := type.ofCode_code.symm.trans hposts.1.1
  exact ⟨Option.some.inj htype, hposts.2.1⟩

theorem takes_pollRequest {s : CacheState} {key : CacheKey} {type : RequestType} {k : RawKey}
    {data : Content} {now : Nat} (h : (pollRequest type k data now).Takes s key) :
    ∃ i, pendingFind s key = some i ∧ (type = .handshakeInit ∧
      (pendingFind s (cacheKey k)).or (pendingFree s now) = some i ∨ type = .handshakePoll) := by
  obtain ⟨f, i, hf, hfind, htakes⟩ := h
  obtain rfl := Option.some.inj ((parse_pollRequest type k data now).symm.trans hf)
  dsimp only at htakes
  rw [RequestType.ofCode_code, Option.some.injEq, Option.some.injEq] at htakes
  exact ⟨i, hfind, htakes.imp (fun h => ⟨h.1, h.2.2⟩) fun h => h.1⟩

def othersStart : Polling := afterInit (Machine.run serve [otherInit] .initial) pollInit

/-- The server when the response is there, when the late INIT is, and when the other response is. -/
def postedState : CacheState :=
  (Machine.run (Polling.step pollKey) ([earlyPoll] ++ [.served pollRespond]) othersStart).cache

def lateState : CacheState := serve postedState lateInit

def otherState : CacheState := serve lateState otherRespond

def othersRun : List Happening :=
  [.served lateInit, .served otherRespond, .served pollRespond, lostPoll, .poll 0 true true]

set_option maxRecDepth 100000 in
/-- Somebody else's INIT gets the other slot, the response is overwritten and posted again. -/
theorem response_obtained_iff_sample :
    (Machine.run (Polling.step pollKey) ([earlyPoll] ++ .served pollRespond :: othersRun)
      othersStart).got = some pollResp.1 := by
  have hlate : ∀ resp, ¬ lateInit.Posts postedState (cacheKey pollKey) resp := fun resp h =>
    nomatch (posts_pollRequest h).1
  refine (response_obtained_iff pollKey [otherInit] pollInit pollRespond [earlyPoll] othersRun
    pollResp.1 (by decide +kernel) (pollRequest_accepted (by decide +kernel))
    ⟨fun resp h => absurd h (hlate resp), ?_, ?_, trivial, trivial, trivial⟩).mpr ?_
  · intro resp _
    have hentry : pendingFind lateState (lateState.pending 1).key = some 1 ∧
        (lateState.pending 1).key = cacheKey pollKey ∧ (lateState.pending 1).ready = true := by
      decide +kernel
    exact ⟨_, ⟨1, hentry.1, rfl⟩, hentry.2⟩
  · intro resp _
    have hentry : pendingFind otherState (otherState.pending 1).key = some 1 ∧
        (otherState.pending 1).key = cacheKey pollKey ∧ (otherState.pending 1).ready = true := by
      decide +kernel
    exact ⟨_, ⟨1, hentry.1, rfl⟩, hentry.2⟩
  · have hinit : ¬ lateInit.Takes postedState (cacheKey pollKey) := by
      intro h
      obtain ⟨i, hfind, ⟨-, hslot⟩ | htype⟩ := takes_pollRequest h
      · have hslots : pendingFind postedState (cacheKey pollKey) = some 1 ∧
            (pendingFind postedState (cacheKey ⟨[112], by decide⟩)).or
              (pendingFree postedState 31000) = some 0 := by decide +kernel
        rw [hslots.1] at hfind
        rw [hslots.2] at hslot
        exact absurd (Option.some.inj (hslot.trans hfind.symm)) (by decide)
      · exact nomatch htype
    have hrespond {s : CacheState} {data : Content} :
        ¬ (pollRequest .handshakeRespond pollKey data 0).Takes s (cacheKey pollKey) := by
      intro h
      obtain ⟨i, -, ⟨htype, -⟩ | htype⟩ := takes_pollRequest h
      · exact nomatch htype
      · exact nomatch htype
    have hother : otherRespond.Posts lateState (cacheKey pollKey) otherResp.1 :=
      pollRequest_posts (by decide +kernel)
    have hagain : pollRespond.Posts otherState (cacheKey pollKey) pollResp.1 :=
      pollRequest_posts (by decide +kernel)
    exact ⟨hinit, _, .inr ⟨hlate, rfl⟩, hrespond, _, .inl hother, hrespond, _, .inl hagain, rfl,
      rfl⟩

set_option maxRecDepth 100000 in
/-- The first reply is lost, and the next poll finds no entry. -/
theorem lost_reply_loses_response :
    Accepted pollKey .initial pollInit .handshakeInit pollPub.1 ∧
      Accepted pollKey (afterInit .initial pollInit).cache pollRespond .handshakeRespond
        pollResp.1 ∧
      someDelivered handshakePollMaxTries [.poll 0 true false, .poll 0 true true] = true ∧
      (Machine.run (Polling.step pollKey)
        [.served pollRespond, .poll 0 true false, .poll 0 true true]
        (afterInit .initial pollInit)).got = none :=
  ⟨pollRequest_accepted (by decide +kernel), pollRequest_accepted (by decide +kernel), by decide,
    by decide +kernel⟩

end AnonSecNet.Retrieval
