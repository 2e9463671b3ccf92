import AnonSecNet.Cache.PendingTable
import AnonSecNet.Retrieval.Dispatch
import AnonSecNet.Retrieval.Fetch

/-! Whom the answer in a pending handshake is for: the clients, the workers of the sender and
the cache server, with their messages in any order. -/
namespace AnonSecNet.Retrieval
open Octets Cache Gateway
open Sender (CString SenderState UploadInput uploadContent sampleKey
  oneByteSignature)
variable (K : KeyExchange) (P : Primitives)

/-- `data` is what a worker computes for the public key of a receiver. -/
def AnswersPub (pub : PubKey) (data : List UInt8) : Prop :=
  ∃ s wire inp, (respondWorker K P s wire pub inp).1.toOption.map Prod.fst = some data

/-- A worker that has not answered yet; `seen` is how many requests the cache server had served
when it listed the entry. -/
structure Job where
  wire : CString
  pub : PubKey
  seen : Nat

structure Handshakes where
  log : Log
  jobs : List Job

def Handshakes.initial : Handshakes := ⟨.initial, []⟩

inductive Message where
  /-- Any request but a RESPOND. -/
  | client (c : Connection)
  | heartbeat (now : Nat)
  /-- The answer of a worker, from the state the sender is in by then. -/
  | respond (j : Nat) (s : SenderState) (inp : RespondInput K) (now : Nat)
  /-- A worker gives up, or its answer does not arrive. -/
  | lost (j : Nat)

/-- What the gateway makes of the answer; it refuses an empty key. -/
def respondRequest (wire : CString) (data : List UInt8) : Option AppRequest :=
  if h : (0 < wire.1.length ∧ wire.1.length ≤ maxKeyLen) ∧ data.length ≤ maxContentLen then
    some ⟨.handshakeRespond, Bytes.zero _, ⟨wire.1, h.1⟩, ⟨data, h.2⟩⟩
  else none

variable {K}

def Handshakes.step (h : Handshakes) : Message K → Handshakes
  | .client c =>
    match parseFrame c.inp with
    | some f =>
      if RequestType.ofCode f.type = some .handshakeRespond then h
      else { h with log := h.log.frame f c.now }
    | none => h
  | .heartbeat now =>
    { log := h.log.step (opened heartbeatRequest now)
      jobs := h.jobs ++ ((relay h.log.state heartbeatRequest now []).1.elim [] dispatched).map
        fun entry => ⟨entry.1, entry.2, h.log.events.length⟩ }
  | .respond j s inp now =>
    match h.jobs[j]? with
    | none => h
    | some job =>
      match (respondWorker K P s job.wire job.pub inp).1.toOption with
      | none => { h with jobs := h.jobs.eraseIdx j }
      | some (data, _) =>
        match respondRequest job.wire data with
        | none => { h with jobs := h.jobs.eraseIdx j }
        | some app =>
          { log := h.log.step (opened app now), jobs := h.jobs.eraseIdx j }
  | .lost j => { h with jobs := h.jobs.eraseIdx j }

/-- Since the entry was listed, an INIT for its wire key with another public key was accepted. -/
def Overtaken (events : List Cache.Served) (job : Job) : Prop :=
  ∃ (n : Nat) (e : Cache.Served) (key : CacheKey) (pub : List UInt8), job.seen ≤ n ∧
    events[n]? = some e ∧ e.Inits key pub ∧ key.1 = job.wire.1 ∧ pub ≠ job.pub.toList

/-- An answer that finds an entry is not overtaken. -/
def Handshakes.OnTime (h : Handshakes) : Message K → Prop
  | .respond j _ _ _ => ∀ (job : Job) (key : CacheKey), h.jobs[j]? = some job →
      key.1 = job.wire.1 → (pendingFind h.log.state key).isSome → ¬ Overtaken h.log.events job
  | _ => True

/-- Every POLL got an answer to the public key of the last INIT before it. -/
def Handshakes.PollsFresh (K : KeyExchange) (h : Handshakes) : Prop :=
  ∀ (p : Nat) (e : Cache.Served) (key : CacheKey) (resp : List UInt8),
    h.log.events[p]? = some e → e.Returns key resp →
      ∃ pub : PubKey, Announced (h.log.events.take p) key pub.toList ∧ AnswersPub K P pub resp

/-! The invariant. -/

/-- The part of it that is about what the server has served. -/
structure LogFresh (K : KeyExchange) (l : Log) : Prop where
  sound : l.Sound
  plain : ∀ e ∈ l.events, 0 ∉ e.frame.key.1
  ready : ∀ i, (l.state.pending i).inUse = true → (l.state.pending i).ready = true →
    AnswersPub K P (l.state.pending i).rEphemeralPub (l.state.pending i).respData.1
  past : ∀ (p : Nat) (e : Cache.Served) (key : CacheKey) (resp : List UInt8),
    l.events[p]? = some e → e.Returns key resp →
      ∃ pub : PubKey, Announced (l.events.take p) key pub.toList ∧ AnswersPub K P pub resp

/-- The job has the public key of the last INIT that there was for its wire key. -/
def Job.Listed (job : Job) (events : List Cache.Served) : Prop :=
  job.seen ≤ events.length ∧
    ∃ key : CacheKey, key.1 = job.wire.1 ∧ Announced (events.take job.seen) key job.pub.toList

structure Handshakes.Fresh (K : KeyExchange) (h : Handshakes) : Prop where
  log : LogFresh P K h.log
  jobs : ∀ job ∈ h.jobs, job.Listed h.log.events

/-- The last INIT at `n` is the last one still if no later one has another public key. -/
theorem announced_since {events : List Cache.Served} {key : CacheKey} {pub pub' : List UInt8}
    {n : Nat} (h : Announced (events.take n) key pub) (h' : Announced events key pub')
    (hsince : ∀ (m : Nat) (e : Cache.Served), n ≤ m → events[m]? = some e →
      ∀ pub'', e.Inits key pub'' → pub'' = pub) : pub' = pub := by
  obtain ⟨r, e, hr, hinits, hlast⟩ := h
  obtain ⟨r', e', hr', hinits', hlast'⟩ := h'
  have hrn : r < n := by
    have hlt := (List.getElem?_eq_some_iff.mp hr).1
    rw [List.length_take] at hlt
    omega
  rw [List.getElem?_take_of_lt hrn] at hr
  by_cases hn : n ≤ r'
  · exact hsince r' e' hn hr' pub' hinits'
  · have hback : ¬ r < r' := fun hlt =>
      hlast r' e' hlt (by rw [List.getElem?_take_of_lt (by omega), hr']) pub' hinits'
    have hforth : ¬ r' < r := fun hlt => hlast' r e hlt hr pub hinits
    obtain rfl : r = r' := by omega
    obtain rfl := Option.some.inj (hr.symm.trans hr')
    exact hinits'.2.1.symm.trans hinits.2.1

theorem announced_unique {events : List Cache.Served} {key : CacheKey} {pub pub' : List UInt8}
    (h : Announced events key pub) (h' : Announced events key pub') : pub' = pub := by
  have hall : Announced (events.take events.length) key pub := by
    rw [List.take_length]
    exact h
  refine announced_since hall h' fun m e hm he => ?_
  have hlt := (List.getElem?_eq_some_iff.mp he).1
  omega

section
variable {P} {l : Log} {h : Handshakes}

/-- A frame, when what it may leave as a response answers the key of the entry. -/
theorem LogFresh.frame (hl : LogFresh P K l) {f : Frame} (hplain : 0 ∉ f.key.1) (now : Nat)
    (hresp : ∀ i, pendingFind l.state f.key = some i →
      RequestType.ofCode f.type = some .handshakeRespond →
        AnswersPub K P (l.state.pending i).rEphemeralPub f.data.1) :
    LogFresh P K (l.frame f now) := by
  have heff := serveFrame_effect l.state f now
  constructor
  · exact hl.sound.effect heff
  · intro e he
    rcases List.mem_append.mp he with he | he
    · exact hl.plain e he
    · obtain rfl := List.mem_singleton.mp he
      exact hplain
  · unfold Log.frame
    dsimp only
    generalize (serveFrame l.state f now).1 = reply at heff
    generalize (serveFrame l.state f now).2.pending = table at heff ⊢
    cases heff with
    | quiet hquiet => exact hl.ready
    | init i hdata hinit hslot =>
      intro j huse hready
      by_cases hj : j = i
      · rw [hj, Function.update_self] at hready
        exact Bool.noConfusion hready
      · rw [Function.update_of_ne hj] at huse hready ⊢
        exact hl.ready j huse hready
    | respond i hdata hposts hfind =>
      intro j huse hready
      by_cases hj : j = i
      · rw [hj, Function.update_self]
        exact hresp i hfind hposts.1.1
      · rw [Function.update_of_ne hj] at huse hready ⊢
        exact hl.ready j huse hready
    | poll i hpoll hreturns hfind =>
      intro j huse hready
      by_cases hj : j = i
      · rw [hj, Function.update_self] at huse
        exact Bool.noConfusion huse
      · rw [Function.update_of_ne hj] at huse hready ⊢
        exact hl.ready j huse hready
  · intro p e key resp hp hreturns
    have hsplit : (l.frame f now).events = l.events ++ [⟨f, (serveFrame l.state f now).1⟩] := rfl
    rw [hsplit] at hp ⊢
    rcases getElem?_snoc hp with hp | ⟨rfl, rfl⟩
    · have hlt := (List.getElem?_eq_some_iff.mp hp).1
      rw [List.take_append_of_le_length (by omega)]
      exact hl.past p e key resp hp hreturns
    · rw [List.take_left' rfl]
      generalize (serveFrame l.state f now).1 = reply at heff hreturns
      generalize (serveFrame l.state f now).2.pending = table at heff
      cases heff with
      | quiet hquiet => exact absurd (.inr (.inr ⟨resp, hreturns⟩)) (hquiet key)
      | init i hdata hinit hslot => exact absurd hreturns hinit.not_returns
      | respond i hdata hposts hfind => exact absurd hreturns hposts.not_returns
      | poll i hpoll hreturns' hfind =>
        obtain ⟨huse, hkey⟩ := pendingFind_eq_some hfind
        obtain rfl : f.key = key := hreturns.1.2
        obtain rfl := (List.cons.inj (framed_inj (hreturns'.2.symm.trans hreturns.2))).2
        have hannounced := hl.sound.announced i huse
        rw [hkey] at hannounced
        exact ⟨_, hannounced, hl.ready i huse hpoll⟩

theorem step_opened (l : Log) (app : AppRequest) (now : Nat) :
    l.step (opened app now) = l.frame ⟨app.type.code, cacheKey app.key, app.data⟩ now := by
  unfold Log.step opened
  rw [parseFrame_frame]

/-! The workers. -/

theorem Job.Listed.append {job : Job} {events : List Cache.Served} (h : job.Listed events)
    (later : List Cache.Served) : job.Listed (events ++ later) := by
  obtain ⟨hseen, key, hkey, hannounced⟩ := h
  refine ⟨by rw [List.length_append]; omega, key, hkey, ?_⟩
  rw [List.take_append_of_le_length hseen]
  exact hannounced

/-- The sender gets the listed entries, or nothing when they do not fit behind its nonce. -/
theorem relay_heartbeat_eq (s : CacheState) (now : Nat) :
    (relay s heartbeatRequest now []).1
      = if respCap .heartbeat < (handleHeartbeat s).length then none
        else some (handleHeartbeat s) := by
  have hserve : handleConnection s (frame .heartbeat heartbeatRequest.key noData) now
      = (framed (handleHeartbeat s), s) :=
    (handleConnection_frame s .heartbeat heartbeatRequest.key noData now).trans rfl
  have hlen := length_handleHeartbeat_le s
  change (relayVerbatim s .heartbeat heartbeatRequest.key now (respCap .heartbeat)).1 = _
  unfold relayVerbatim
  rw [hserve]
  exact readReply_framed _ (by simp at hlen; omega)

theorem relay_heartbeat (s : CacheState) (now : Nat) :
    ((relay s heartbeatRequest now []).1.elim [] dispatched) = [] ∨
      ((relay s heartbeatRequest now []).1.elim [] dispatched)
        = s.listed.map fun p => (stringOf p.key.1, p.rEphemeralPub) := by
  rw [relay_heartbeat_eq]
  split
  · exact .inl rfl
  · exact .inr (dispatched_heartbeat s)

theorem respondRequest_eq_some {wire : CString} {data : List UInt8} {app : AppRequest}
    (h : respondRequest wire data = some app) :
    app.type = .handshakeRespond ∧ app.key.1 = wire.1 ∧ app.data.1 = data := by
  unfold respondRequest at h
  split at h
  · obtain rfl := Option.some.inj h
    exact ⟨rfl, rfl, rfl⟩
  · cases h

/-- What is listed is a job with the public key of the last INIT. -/
theorem LogFresh.listed (hl : LogFresh P K l) {q : PendingHandshake} (hq : q ∈ l.state.listed) :
    (⟨stringOf q.key.1, q.rEphemeralPub, l.events.length⟩ : Job).Listed l.events := by
  obtain ⟨⟨i, rfl⟩, huse, -⟩ := mem_listed hq
  have hannounced := hl.sound.announced i huse
  obtain ⟨r, e, hr, hinits, -⟩ := hannounced
  have hplain := hl.plain e (List.mem_of_getElem? hr)
  rw [hinits.1.2] at hplain
  have hstring : (stringOf (l.state.pending i).key.1).1 = (l.state.pending i).key.1 :=
    List.takeWhile_eq_self_iff.mpr fun c hc => decide_eq_true fun heq => hplain (heq ▸ hc)
  refine ⟨Nat.le_refl _, (l.state.pending i).key, hstring.symm, ?_⟩
  dsimp only
  rw [List.take_length]
  exact hl.sound.announced i huse

/-- The answer of a job that is not overtaken is for the entry it finds. -/
theorem Job.Listed.answers {job : Job} (hjob : job.Listed l.events) (hl : LogFresh P K l)
    {key : CacheKey} (hkey : key.1 = job.wire.1) {i : Fin maxPending}
    (hfind : pendingFind l.state key = some i) (htime : ¬ Overtaken l.events job) :
    job.pub = (l.state.pending i).rEphemeralPub := by
  obtain ⟨hseen, key', hkey', hannounced⟩ := hjob
  obtain rfl : key = key' := Subtype.ext (hkey.trans hkey'.symm)
  obtain ⟨huse, hname⟩ := pendingFind_eq_some hfind
  have hnow := hl.sound.announced i huse
  rw [hname] at hnow
  refine (Bytes.ext (announced_since hannounced hnow ?_)).symm
  intro m e hm he pub hinits
  by_contra hne
  exact htime ⟨m, e, key, pub, hm, he, hinits, hkey, hne⟩

/-! Every message. -/

theorem Fresh.jobs_frame {jobs : List Job} (hjobs : ∀ job ∈ jobs, job.Listed l.events)
    (f : Frame) (now : Nat) : ∀ job ∈ jobs, job.Listed (l.frame f now).events :=
  fun job hmem => (hjobs job hmem).append _

theorem Handshakes.Fresh.client (hf : h.Fresh P K) (c : Connection) :
    (h.step P (.client c : Message K)).Fresh P K := by
  unfold Handshakes.step
  dsimp only
  split
  · rename_i f hparse
    split
    · exact hf
    · rename_i htype
      refine ⟨hf.log.frame (parseFrame_key hparse) c.now ?_, Fresh.jobs_frame hf.jobs f c.now⟩
      intro i _ hrespond
      exact absurd hrespond htype
  · exact hf

theorem Handshakes.Fresh.heartbeat (hf : h.Fresh P K) (now : Nat) :
    (h.step P (.heartbeat now : Message K)).Fresh P K := by
  unfold Handshakes.step
  dsimp only
  rw [step_opened]
  refine ⟨hf.log.frame (zero_notMem_cstr _) now ?_, ?_⟩
  · intro i _ hrespond
    cases hrespond
  · refine Fresh.jobs_frame (fun job hmem => ?_) _ now
    rcases List.mem_append.mp hmem with hmem | hmem
    · exact hf.jobs job hmem
    · rcases relay_heartbeat h.log.state now with hnone | hlisted
      · rw [hnone] at hmem
        cases hmem
      · rw [hlisted, List.map_map] at hmem
        obtain ⟨q, hq, rfl⟩ := List.mem_map.mp hmem
        exact hf.log.listed hq

theorem Handshakes.Fresh.lost (hf : h.Fresh P K) (j : Nat) :
    (⟨h.log, h.jobs.eraseIdx j⟩ : Handshakes).Fresh P K :=
  ⟨hf.log, fun job hmem => hf.jobs job (List.mem_of_mem_eraseIdx hmem)⟩

theorem Handshakes.Fresh.respond (hf : h.Fresh P K) {j : Nat} {s : SenderState}
    {inp : RespondInput K} {now : Nat} (htime : h.OnTime (.respond j s inp now)) :
    (h.step P (.respond j s inp now)).Fresh P K := by
  unfold Handshakes.step
  dsimp only
  split
  · exact hf
  · rename_i job hjob
    split
    · exact hf.lost j
    · rename_i data pkt hwork
      split
      · exact hf.lost j
      · rename_i app happ
        obtain ⟨-, hname, hdata⟩ := respondRequest_eq_some happ
        rw [step_opened]
        refine ⟨hf.log.frame (zero_notMem_cstr _) now ?_, Fresh.jobs_frame (hf.lost j).jobs _ now⟩
        intro i hfind _
        have hkey := cacheKey_plain hname
        have hnot := htime job _ hjob hkey (by rw [hfind]; rfl)
        have hlisted := hf.jobs job (List.mem_of_getElem? hjob)
        rw [← hlisted.answers hf.log hkey hfind hnot]
        exact ⟨s, job.wire, inp, by rw [hwork, hdata]; rfl⟩

theorem Handshakes.Fresh.step (hf : h.Fresh P K) (m : Message K) (htime : h.OnTime m) :
    (h.step P m).Fresh P K := by
  cases m with
  | client c => exact hf.client c
  | heartbeat now => exact hf.heartbeat now
  | respond j s inp now => exact hf.respond htime
  | lost j => exact hf.lost j

theorem initial_fresh : Handshakes.initial.Fresh P K where
  log :=
    { sound := initial_sound
      plain := by simp [Handshakes.initial, Log.initial]
      ready := fun i huse => Bool.noConfusion huse
      past := by simp [Handshakes.initial, Log.initial] }
  jobs := by simp [Handshakes.initial]

def acceptAll : Verify := fun _ _ _ => true

/-- A receiver that has pinned nobody gets the content key out of an answer to its public key. -/
theorem AnswersPub.opens {eph : K.Secret} {data : List UInt8}
    (h : AnswersPub K P (K.pubkey eph) data) (key : CString) :
    (openAnswer K P acceptAll (fun _ => none) key eph data).isSome := by
  obtain ⟨s, wire, inp, hwork⟩ := h
  unfold respondWorker at hwork
  split at hwork
  · rename_i ephPub enc sig hseal hsig
    split at hwork
    · obtain rfl := Option.some.inj hwork
      unfold sealContentKey at hseal
      obtain ⟨kContent, -, hseal⟩ := Option.bind_eq_some_iff.mp hseal
      obtain ⟨ephS, -, hseal⟩ := Option.bind_eq_some_iff.mp hseal
      obtain ⟨kSession, hsession, hseal⟩ := Option.bind_eq_some_iff.mp hseal
      obtain ⟨gcmNonce, -, hseal⟩ := Option.bind_eq_some_iff.mp hseal
      obtain ⟨enc, henc, hpair⟩ := Option.map_eq_some_iff.mp hseal
      obtain ⟨rfl, rfl⟩ := Prod.mk.inj hpair
      have hsig : acceptAll (Bytes.zero _) (respondSigned (K.pubkey ephS) enc.1) sig.1 = true := rfl
      have hpins : NoConflict (fun _ => none) key (Bytes.zero _) := fun _ hpin => by cases hpin
      rw [openAnswer_respondData K P hsession henc hsig hpins]
      rfl
    · cases hwork
    · cases hwork
  · cases hwork

/-- The public key of the last INIT, computed. -/
def lastInit (key : CacheKey) (events : List Cache.Served) : Option (List UInt8) :=
  events.foldl
    (fun last e =>
      if (RequestType.ofCode e.frame.type = some .handshakeInit ∧ e.frame.key = key) ∧
          e.reply = ackReply true then some e.frame.data.1
      else last) none

theorem announced_of_lastInit {events : List Cache.Served} {key : CacheKey} {pub : List UInt8}
    (h : lastInit key events = some pub) : Announced events key pub := by
  induction events using List.reverseRecOn with
  | nil => cases h
  | append_singleton events e ih =>
    unfold lastInit at h ih
    rw [List.foldl_append, List.foldl_cons, List.foldl_nil] at h
    split at h
    · rename_i hinit
      exact Announced.last ⟨hinit.1, Option.some.inj h, hinit.2⟩
    · rename_i hother
      exact (ih h).snoc fun pub' hinits => hother ⟨hinits.1, hinits.2.2⟩

end

/-! Two public keys with one suffix. -/

/-- The two bytes that the suffix is made of are the same in all public keys. -/
def collidingExchange : KeyExchange where
  Secret := UInt8
  pubkey a := Bytes.fit ecPubkeyLen [4, 0, 0, a]
  shared a pub :=
    if pub.byte 0 ecPubkeyLen_pos = 4 then some (Bytes.fit 32 [a * pub.byte 3]) else none
  hkdf shared _ := shared
  shared_comm a b := by
    have h : (Bytes.fit ecPubkeyLen [4, 0, 0, a]).byte 0
        = (Bytes.fit ecPubkeyLen [4, 0, 0, b]).byte 0 := rfl
    have ha : (Bytes.fit ecPubkeyLen [4, 0, 0, a]).byte 3 = a := rfl
    have hb : (Bytes.fit ecPubkeyLen [4, 0, 0, b]).byte 3 = b := rfl
    rw [h, ha, hb, UInt8.mul_comm]
  shared_isSome a b := rfl

def collidingSecret (a : UInt8) : collidingExchange.Secret := a

def collidingPub (a : UInt8) : PubKey := collidingExchange.pubkey (collidingSecret a)

def collidingWire : RawKey := mykeyWire

/-- INIT of a receiver. -/
def initMessage (a : UInt8) : Message collidingExchange :=
  .client (opened ⟨.handshakeInit, Bytes.zero _, collidingWire,
    ⟨(collidingPub a).toList, by rw [Bytes.length_eq]; decide⟩⟩ 0)

def pollMessage : Message collidingExchange :=
  .client (opened ⟨.handshakePoll, Bytes.zero _, collidingWire, noData⟩ 0)

/-- The sender answers the first entry it was listed. -/
def respondMessage : Message collidingExchange :=
  .respond 0
    (uploadContent .sample .sample sampleKey [7] (.sample (sampleMaster 0) true)).2
    { eph := some (collidingSecret 7)
      gcmNonce := some (Bytes.zero _)
      signature := some oneByteSignature
      send := (UploadInput.sample (sampleMaster 0) true).send } 0

def handshakesAfter (ms : List (Message collidingExchange)) : Handshakes :=
  Machine.run (Handshakes.step .sample) ms .initial

def onTimeRun : List (Message collidingExchange) :=
  [initMessage 9, .heartbeat 0, respondMessage, pollMessage]

def overtakenRun : List (Message collidingExchange) :=
  [initMessage 9, .heartbeat 0, initMessage 11, respondMessage, pollMessage]

/-- In a run without overtaken answers every POLL is answered for the last INIT. -/
theorem polls_fresh (ms : List (Message K))
    (hms : Machine.StepsMeet (Handshakes.step P) Handshakes.OnTime ms .initial) :
    Machine.Along (Handshakes.step P) (Handshakes.PollsFresh P K) ms .initial :=
  Machine.Along.mono _ (fun _ hf => hf.log.past)
    (Machine.along_of_stepsMeet (Handshakes.step P) (Handshakes.Fresh P K)
      (fun _ m hf htime => hf.step m htime) initial_fresh hms)

set_option maxRecDepth 100000 in
theorem polls_fresh_sample :
    (∀ i < 4, ((handshakesAfter onTimeRun).log.events[i]?.map fun e => e.reply.take 3)
        = [[0, 1, 1], [0, 77, 1], [0, 1, 1], [0, 130, 1]][i]?) ∧
      Machine.Along (Handshakes.step .sample) (Handshakes.PollsFresh .sample collidingExchange)
        onTimeRun .initial := by
  refine ⟨by decide +kernel, polls_fresh .sample onTimeRun ⟨trivial, trivial, ?_, trivial, trivial⟩⟩
  have hquiet : ∀ job ∈ (handshakesAfter [initMessage 9, .heartbeat 0]).jobs,
      ∀ e ∈ (handshakesAfter [initMessage 9, .heartbeat 0]).log.events.drop job.seen,
        RequestType.ofCode e.frame.type ≠ some .handshakeInit := by
    decide +kernel
  rintro job key hjob - - ⟨n, e, key', pub, hn, he, hinits, -⟩
  refine hquiet job (List.mem_of_getElem? hjob) e (List.mem_iff_getElem?.mpr ⟨n - job.seen, ?_⟩)
    hinits.1.1
  rw [List.getElem?_drop, Nat.add_sub_cancel' hn]
  exact he

/-- What the last POLL of the run got. -/
def stalePoll : List UInt8 :=
  ((handshakesAfter overtakenRun).log.events[4]?.elim [] Cache.Served.reply).drop 3

set_option maxRecDepth 100000 in
theorem overtaken_answer_returned :
    wireKey sampleKey (collidingPub 9) = wireKey sampleKey (collidingPub 11) ∧
      ¬ (handshakesAfter overtakenRun).PollsFresh .sample collidingExchange := by
  refine ⟨by decide +kernel, fun hfresh => ?_⟩
  have hpoll : (handshakesAfter overtakenRun).log.events[4]?.any fun e =>
      (RequestType.ofCode e.frame.type = some .handshakePoll ∧
        e.frame.key = cacheKey collidingWire) ∧ e.reply = framed (0x01 :: stalePoll) := by
    decide +kernel
  have hinit : lastInit (cacheKey collidingWire)
      ((handshakesAfter overtakenRun).log.events.take 4) = some (collidingPub 11).toList := by
    decide +kernel
  have hclosed : (openAnswer collidingExchange .sample acceptAll (fun _ => none) sampleKey
      (collidingSecret 11) stalePoll).isSome = false := by
    decide +kernel
  obtain ⟨e, he, hreturns⟩ := (Option.any_eq_true ..).mp hpoll
  have hreturns := of_decide_eq_true hreturns
  obtain ⟨pub, hannounced, hanswers⟩ := hfresh 4 e _ stalePoll he hreturns
  obtain rfl : pub = collidingPub 11 :=
    Bytes.ext (announced_unique (announced_of_lastInit hinit) hannounced)
  have hopen := hanswers.opens sampleKey
  rw [hclosed] at hopen
  cases hopen

end AnonSecNet.Retrieval
