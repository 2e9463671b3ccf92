import AnonSecNet.Telescope.Relay

/-! How far each handler of a chain is: what it has read, what it has written, and how both
agree with the handler of the next node. -/
namespace AnonSecNet.Telescope
open Octets
open Sender (Signature)
open MixNode (ExtendRequest recvExtendRequest extendMaster)
variable {K : KeyExchange} (P : Primitives)

/-! What a session was populated from. -/

def Slot.Holds (master : AesKey) (role : UInt8) : Slot → Prop
  | .mix entry =>
    entry.inUse = true ∧ entry.role = role ∧ entry.hintSeed = packetDeriveHintSeed P master ∧
      (entry.headerEncKey, entry.headerMacKey, entry.returnBlindKey)
        = packetDeriveHopKeys P master
  | .gateway sess =>
    sess.inUse = true ∧ sess.role = role ∧ sess.e2eKey = master ∧
      sess.sgHint = packetDeriveSgHint P master

/-- The master is bound to the port, the keys and the role, and the slot is populated from it. -/
structure Allocated.SetUpAt (a : Allocated K) (port : UInt16) : Prop where
  bound : cryptoEcdhDeriveBound K a.nodeKp a.req.clientPub a.req.clientPub (K.pubkey a.nodeKp)
    port a.req.role = some a.master
  holds : a.slot.Holds P a.master a.req.role

theorem setUp_eq_some {port : UInt16} {nodeKp : K.Secret} {frame : WirePacket} {now : Nat}
    {store : Store} {a : Allocated K} (h : setUp K P port nodeKp frame now store = some a) :
    recvExtendRequest frame = some a.req ∧ a.SetUpAt P port := by
  cases store with
  | mix t =>
    obtain ⟨⟨req, master, i, t'⟩, hextend, rfl⟩ := Option.map_eq_some_iff.mp h
    obtain ⟨req', hreq, hextend⟩ := Option.bind_eq_some_iff.mp hextend
    obtain ⟨master', hmaster, hextend⟩ := Option.bind_eq_some_iff.mp hextend
    obtain ⟨⟨j, t''⟩, hsession, hout⟩ := Option.map_eq_some_iff.mp hextend
    cases hout
    refine ⟨hreq, hmaster, ?_⟩
    have hrole := MixNode.extendSession_role P hsession
    obtain ⟨sess, rfl, huse, hhint, hkeys⟩ := MixNode.extendSession_eq_some P hsession
    rw [Function.update_self] at hrole
    dsimp only [Slot.Holds]
    rw [Function.update_self, hhint]
    exact ⟨huse, hrole, rfl, hkeys⟩
  | gateway t =>
    obtain ⟨req, hreq, h⟩ := Option.bind_eq_some_iff.mp h
    obtain ⟨master, hmaster, h⟩ := Option.bind_eq_some_iff.mp h
    obtain ⟨i, _, rfl⟩ := Option.map_eq_some_iff.mp h
    exact ⟨hreq, hmaster, rfl, rfl, rfl, rfl⟩

/-! How far a handler is. -/

/-- Nothing written yet, and no connection opened. -/
structure Quiet (h : Hop K) (next : Option (Hop K)) : Prop where
  next : next = none
  sent : h.up.sent = []
  opened : h.opened = []

structure Holding (h : Hop K) (a : Allocated K) (frame : WirePacket) : Prop where
  session : h.session = some a
  request : recvExtendRequest frame = some a.req
  setUp : a.SetUpAt P h.port

/-- It has read `frame` and answered with a descriptor; `later` is what it has read since, and
`back` what it has written since. -/
structure Answered (h : Hop K) (a : Allocated K) (frame reply : WirePacket)
    (later back : List UInt8) : Prop where
  holding : Holding P h a frame
  got : h.down.got = modeExtend :: (frame.toList ++ later)
  sent : h.up.sent = reply.toList ++ back
  descriptor : ∃ identityPub sig pad,
    netSendPaddedFrame (descriptorBytes (K.pubkey a.nodeKp) identityPub sig) pad = some reply

/-- The pipe to the next node `g`. -/
structure Linked (h : Hop K) (a : Allocated K) (later : List UInt8) (g : Hop K) : Prop where
  relays : h.relaysTo a
  opened : h.opened = [a.req.targetPort]
  port : g.port = a.req.targetPort
  sent : g.down.sent = modeExtend :: later

def Piped (h : Hop K) (next : Option (Hop K)) : Prop :=
  ∃ a frame reply later g, next = some g ∧ Answered P h a frame reply later g.up.got ∧
    Linked h a later g

def Progress (h : Hop K) (next : Option (Hop K)) : Prop :=
  match h.phase with
  | .accepted => Quiet h next ∧ h.down.got = []
  | .request => Quiet h next ∧ h.down.got = [modeExtend]
  | .replying =>
    Quiet h next ∧ ∃ a frame, Holding P h a frame ∧ h.down.got = modeExtend :: frame.toList
  | .relaying =>
    next = none ∧ h.opened = [] ∧
      ∃ a frame reply, Answered P h a frame reply [] [] ∧ h.relaysTo a
  | .relayReply => Piped P h next
  | .proxying => Piped P h next
  | .returned =>
    next = none ∧ h.opened = [] ∧
      (h.up.sent = [] ∨ ∃ a frame reply later, Answered P h a frame reply later [])

/-- A handler that has written something has answered; what came after is a pipe, or nothing. -/
theorem Progress.answered {h : Hop K} {next : Option (Hop K)} (hp : Progress P h next)
    (hsent : h.up.sent ≠ []) :
    ∃ a frame reply later back, Answered P h a frame reply later back ∧
      ((next = none ∧ h.opened = [] ∧ back = []) ∨
        ∃ g, next = some g ∧ back = g.up.got ∧ Linked h a later g) := by
  unfold Progress at hp
  split at hp
  · exact absurd hp.1.sent hsent
  · exact absurd hp.1.sent hsent
  · exact absurd hp.1.sent hsent
  · obtain ⟨hnext, hopened, a, frame, reply, ha, _⟩ := hp
    exact ⟨a, frame, reply, [], [], ha, .inl ⟨hnext, hopened, rfl⟩⟩
  · obtain ⟨a, frame, reply, later, g, hnext, ha, hlink⟩ := hp
    exact ⟨a, frame, reply, later, g.up.got, ha, .inr ⟨g, hnext, rfl, hlink⟩⟩
  · obtain ⟨a, frame, reply, later, g, hnext, ha, hlink⟩ := hp
    exact ⟨a, frame, reply, later, g.up.got, ha, .inr ⟨g, hnext, rfl, hlink⟩⟩
  · obtain ⟨hnext, hopened, hquiet | ⟨a, frame, reply, later, ha⟩⟩ := hp
    · exact absurd hquiet hsent
    · exact ⟨a, frame, reply, later, [], ha, .inl ⟨hnext, hopened, rfl⟩⟩

/-! What a neighbour sees of a handler, and what is its own. -/

/-- What the node before it sees. -/
structure SameFace (g g' : Hop K) : Prop where
  port : g'.port = g.port
  downSent : g'.down.sent = g.down.sent
  upGot : g'.up.got = g.up.got

/-- What the node before it cannot touch. -/
structure SameInside (g g' : Hop K) : Prop where
  port : g'.port = g.port
  phase : g'.phase = g.phase
  session : g'.session = g.session
  opened : g'.opened = g.opened
  downGot : g'.down.got = g.down.got
  upSent : g'.up.sent = g.up.sent

theorem Holding.congr {g g' : Hop K} {a : Allocated K} {frame : WirePacket}
    (h : Holding P g a frame) (hsession : g'.session = g.session) (hport : g'.port = g.port) :
    Holding P g' a frame where
  session := hsession.trans h.session
  request := h.request
  setUp := hport.symm ▸ h.setUp

/-- The same handler, when it has read or written more. -/
theorem Answered.congr {g g' : Hop K} {a : Allocated K} {frame reply : WirePacket}
    {later back later' back' : List UInt8} (h : Answered P g a frame reply later back)
    (hsession : g'.session = g.session) (hport : g'.port = g.port)
    (hgot : g'.down.got = modeExtend :: (frame.toList ++ later'))
    (hsent : g'.up.sent = reply.toList ++ back') : Answered P g' a frame reply later' back' where
  holding := h.holding.congr P hsession hport
  got := hgot
  sent := hsent
  descriptor := h.descriptor

theorem Answered.inside {g g' : Hop K} {a : Allocated K} {frame reply : WirePacket}
    {later back : List UInt8} (h : Answered P g a frame reply later back)
    (hsame : SameInside g g') : Answered P g' a frame reply later back :=
  h.congr P hsame.session hsame.port (hsame.downGot.trans h.got) (hsame.upSent.trans h.sent)

theorem Quiet.inside {g g' : Hop K} {next : Option (Hop K)} (h : Quiet g next)
    (hsame : SameInside g g') : Quiet g' next :=
  ⟨h.next, hsame.upSent.trans h.sent, hsame.opened.trans h.opened⟩

theorem relaysTo_inside {g g' : Hop K} {a : Allocated K} (h : g.relaysTo a)
    (hsame : SameInside g g') : g'.relaysTo a := ⟨by rw [hsame.port]; exact h.1, h.2⟩

theorem Piped.inside {g g' : Hop K} {next : Option (Hop K)} (h : Piped P g next)
    (hsame : SameInside g g') : Piped P g' next := by
  obtain ⟨a, frame, reply, later, n, hnext, ha, hlink⟩ := h
  exact ⟨a, frame, reply, later, n, hnext, ha.inside P hsame,
    relaysTo_inside hlink.relays hsame, hsame.opened.trans hlink.opened, hlink.port, hlink.sent⟩

theorem Piped.face {h g g' : Hop K} (hp : Piped P h (some g)) (hsame : SameFace g g') :
    Piped P h (some g') := by
  obtain ⟨a, frame, reply, later, n, hnext, ha, hlink⟩ := hp
  obtain rfl := Option.some.inj hnext
  exact ⟨a, frame, reply, later, g', rfl, by rw [hsame.upGot]; exact ha,
    hlink.relays, hlink.opened, hsame.port.trans hlink.port, hsame.downSent.trans hlink.sent⟩

theorem Progress.inside {g g' : Hop K} {next : Option (Hop K)} (hp : Progress P g next)
    (hsame : SameInside g g') : Progress P g' next := by
  unfold Progress at hp ⊢
  rw [hsame.phase]
  cases hphase : g.phase with
  | accepted =>
    rw [hphase] at hp
    exact ⟨hp.1.inside hsame, hsame.downGot.trans hp.2⟩
  | request =>
    rw [hphase] at hp
    exact ⟨hp.1.inside hsame, hsame.downGot.trans hp.2⟩
  | replying =>
    rw [hphase] at hp
    obtain ⟨hquiet, a, frame, ha, hgot⟩ := hp
    exact ⟨hquiet.inside hsame, a, frame, ha.congr P hsame.session hsame.port,
      hsame.downGot.trans hgot⟩
  | relaying =>
    rw [hphase] at hp
    obtain ⟨hnext, hopened, a, frame, reply, ha, hrelays⟩ := hp
    exact ⟨hnext, hsame.opened.trans hopened, a, frame, reply, ha.inside P hsame,
      relaysTo_inside hrelays hsame⟩
  | relayReply =>
    rw [hphase] at hp
    exact Piped.inside P hp hsame
  | proxying =>
    rw [hphase] at hp
    exact Piped.inside P hp hsame
  | returned =>
    rw [hphase] at hp
    obtain ⟨hnext, hopened, hsent⟩ := hp
    refine ⟨hnext, hsame.opened.trans hopened, ?_⟩
    rcases hsent with hsent | ⟨a, frame, reply, later, ha⟩
    · exact .inl (hsame.upSent.trans hsent)
    · exact .inr ⟨a, frame, reply, later, ha.inside P hsame⟩

/-- Only a pipe has a next node. -/
theorem progress_some_iff {h g : Hop K} :
    Progress P h (some g) ↔
      (h.phase = .relayReply ∨ h.phase = .proxying) ∧ Piped P h (some g) := by
  constructor
  · intro hp
    unfold Progress at hp
    split at hp
    · cases hp.1.next
    · cases hp.1.next
    · cases hp.1.next
    · cases hp.1
    · exact ⟨.inl ‹_›, hp⟩
    · exact ⟨.inr ‹_›, hp⟩
    · cases hp.1
  · rintro ⟨hphase | hphase, hp⟩
    · unfold Progress
      rw [hphase]
      exact hp
    · unfold Progress
      rw [hphase]
      exact hp

theorem Progress.face {h g g' : Hop K} (hp : Progress P h (some g)) (hsame : SameFace g g') :
    Progress P h (some g') := by
  obtain ⟨hphase, hpiped⟩ := (progress_some_iff P).mp hp
  exact (progress_some_iff P).mpr ⟨hphase, hpiped.face P hsame⟩

/-! One step of a handler. -/

/-- What a step makes of the handler of the next node. -/
inductive Follows : Option (Hop K) → Option (Hop K) → Prop
  | kept (next) : Follows next next
  | opened {g} : g.phase = .accepted → Quiet g none → g.down.got = [] → Follows none (some g)
  | used {g g'} : SameInside g g' → Follows (some g) (some g')

/-- A step of `h` towards `h'`, seen from both sides. -/
structure Steps (h : Hop K) (next : Option (Hop K)) (h' : Hop K) (next' : Option (Hop K)) :
    Prop where
  progress : Progress P h' next'
  face : SameFace h h'
  follows : Follows next next'

variable {h : Hop K} {next : Option (Hop K)}

theorem sameFace_recv {n : Nat} {bytes : List UInt8} {down : Fifo UInt8}
    (hrecv : h.down.recv n = some (bytes, down)) (phase : Phase) (session : Option (Allocated K))
    (opened : List UInt16) : SameFace h ⟨h.port, phase, down, h.up, session, opened⟩ :=
  ⟨rfl, (Fifo.recv_cases hrecv).2.2, rfl⟩

theorem steps_refl (hp : Progress P h next) : Steps P h next h next :=
  ⟨hp, ⟨rfl, rfl, rfl⟩, .kept next⟩

theorem readMode_steps (hp : Progress P h next) (hphase : h.phase = .accepted) :
    Steps P h next (readMode h) next := by
  have hstay := steps_refl P hp
  unfold Progress at hp
  rw [hphase] at hp
  obtain ⟨hquiet, hgot⟩ := hp
  unfold readMode
  split
  · rename_i mode down hrecv
    obtain ⟨_, hread, _⟩ := Fifo.recv_cases hrecv
    rw [hgot, List.nil_append] at hread
    refine ⟨?_, sameFace_recv hrecv _ _ _, .kept next⟩
    unfold Progress
    split_ifs with hmode
    · exact ⟨⟨hquiet.next, hquiet.sent, hquiet.opened⟩, hread.trans hmode⟩
    · exact ⟨hquiet.next, hquiet.opened, .inl hquiet.sent⟩
  · exact hstay

theorem readRequest_steps (hp : Progress P h next) (hphase : h.phase = .request)
    (nodeKp : K.Secret) (store : Store) (now : Nat) :
    Steps P h next (readRequest P h nodeKp store now) next := by
  have hstay := steps_refl P hp
  unfold Progress at hp
  rw [hphase] at hp
  obtain ⟨hquiet, hgot⟩ := hp
  unfold readRequest
  split
  · rename_i bytes down hrecv
    obtain ⟨hlen, hread, _⟩ := Fifo.recv_cases hrecv
    rw [hgot, List.singleton_append] at hread
    split
    · rename_i a hset
      refine ⟨⟨⟨hquiet.next, hquiet.sent, hquiet.opened⟩, a, Bytes.fit _ bytes, ?_, ?_⟩,
        sameFace_recv hrecv _ _ _, .kept next⟩
      · obtain ⟨hreq, hsetUp⟩ := setUp_eq_some P hset
        exact ⟨rfl, hreq, hsetUp⟩
      · refine hread.trans (congrArg (List.cons modeExtend) ?_)
        simp [Bytes.fit, ← hlen]
    · exact ⟨⟨hquiet.next, hquiet.opened, .inl hquiet.sent⟩, sameFace_recv hrecv _ _ _,
        .kept next⟩
  · exact hstay

theorem sendReply_steps (hp : Progress P h next) (hphase : h.phase = .replying)
    {a : Allocated K} (hsession : h.session = some a) (identityPub : PubKey) (sig : Signature)
    (pad : WirePacket) : Steps P h next (sendReply h a identityPub sig pad) next := by
  unfold Progress at hp
  rw [hphase] at hp
  obtain ⟨hquiet, b, frame, hb, hgot⟩ := hp
  obtain rfl : b = a := Option.some.inj (hb.session.symm.trans hsession)
  unfold sendReply
  split
  · rename_i reply hsent
    have hans : ∀ phase, Answered P { h with up := h.up.send reply.toList, phase } b frame reply
        [] [] := by
      intro phase
      refine ⟨hb.congr P rfl rfl, ?_, ?_, identityPub, sig, pad, hsent⟩
      · rw [List.append_nil]
        exact hgot
      · rw [Fifo.sent_send, hquiet.sent, List.nil_append, List.append_nil]
    refine ⟨?_, ⟨rfl, rfl, rfl⟩, .kept next⟩
    unfold Progress
    split_ifs with hrelays
    · exact ⟨hquiet.next, hquiet.opened, b, frame, reply, hans _, hrelays⟩
    · exact ⟨hquiet.next, hquiet.opened, .inr ⟨b, frame, reply, [], hans _⟩⟩
  · exact ⟨⟨hquiet.next, hquiet.opened, .inl hquiet.sent⟩, ⟨rfl, rfl, rfl⟩, .kept next⟩

theorem relayRequest_steps (hp : Progress P h none) (hphase : h.phase = .relaying)
    {a : Allocated K} (hsession : h.session = some a) :
    Steps P h none (relayRequest h a).1 (relayRequest h a).2 := by
  have hstay := steps_refl P hp
  unfold Progress at hp
  rw [hphase] at hp
  obtain ⟨-, hopened, b, frame, reply, hb, hrelays⟩ := hp
  obtain rfl : b = a := Option.some.inj (hb.holding.session.symm.trans hsession)
  unfold relayRequest
  split
  · rename_i bytes down hrecv
    obtain ⟨_, hread, _⟩ := Fifo.recv_cases hrecv
    rw [hb.got, List.append_nil] at hread
    have hans : ∀ phase opened, Answered P ⟨h.port, phase, down, h.up, h.session, opened⟩ b frame
        reply bytes [] := fun phase opened => hb.congr P rfl rfl hread hb.sent
    split
    · refine ⟨?_, sameFace_recv hrecv _ _ _, .opened rfl ⟨rfl, rfl, rfl⟩ rfl⟩
      refine ⟨b, frame, reply, bytes, _, rfl, hans _ _, hrelays, ?_, rfl, rfl⟩
      dsimp only
      rw [hopened, List.nil_append]
    · exact ⟨⟨rfl, hopened, .inr ⟨b, frame, reply, bytes, hans _ _⟩⟩, sameFace_recv hrecv _ _ _,
        .kept none⟩
  · exact hstay

/-! Through a pipe. -/

section
variable {g : Hop K} {n : Nat} {bytes : List UInt8}

theorem Piped.up (hp : Piped P h (some g)) {up : Fifo UInt8}
    (hrecv : g.up.recv n = some (bytes, up)) (phase : Phase) :
    Piped P { h with up := h.up.send bytes, phase } (some { g with up }) := by
  obtain ⟨a, frame, reply, later, m, hnext, ha, hlink⟩ := hp
  obtain rfl := Option.some.inj hnext
  obtain ⟨_, hread, _⟩ := Fifo.recv_cases hrecv
  refine ⟨a, frame, reply, later, _, rfl, ha.congr P rfl rfl ha.got ?_,
    hlink.relays, hlink.opened, hlink.port, hlink.sent⟩
  rw [Fifo.sent_send, ha.sent, hread, List.append_assoc]

theorem Piped.down (hp : Piped P h (some g)) {down : Fifo UInt8}
    (hrecv : h.down.recv n = some (bytes, down)) :
    Piped P { h with down } (some { g with down := g.down.send bytes }) := by
  obtain ⟨a, frame, reply, later, m, hnext, ha, hlink⟩ := hp
  obtain rfl := Option.some.inj hnext
  obtain ⟨_, hread, _⟩ := Fifo.recv_cases hrecv
  refine ⟨a, frame, reply, later ++ bytes, _, rfl, ha.congr P rfl rfl ?_ ha.sent,
    hlink.relays, hlink.opened, hlink.port, ?_⟩
  · rw [hread, ha.got, List.cons_append, List.append_assoc]
  · rw [Fifo.sent_send, hlink.sent, List.cons_append]

theorem sameInside_up {up : Fifo UInt8} (hrecv : g.up.recv n = some (bytes, up)) :
    SameInside g { g with up } := ⟨rfl, rfl, rfl, rfl, rfl, (Fifo.recv_cases hrecv).2.2⟩

theorem passReply_steps (hp : Progress P h (some g)) :
    Steps P h (some g) (passReply h g).1 (some (passReply h g).2) := by
  obtain ⟨_, hpiped⟩ := (progress_some_iff P).mp hp
  unfold passReply
  split
  · rename_i reply up hrecv
    exact ⟨(progress_some_iff P).mpr ⟨.inr rfl, hpiped.up P hrecv _⟩, ⟨rfl, rfl, rfl⟩,
      .used (sameInside_up hrecv)⟩
  · exact steps_refl P hp

theorem pumpUp_steps (hp : Progress P h (some g)) (n : Nat) :
    Steps P h (some g) (pumpUp h g n).1 (some (pumpUp h g n).2) := by
  obtain ⟨hphase, hpiped⟩ := (progress_some_iff P).mp hp
  unfold pumpUp
  split
  · rename_i bytes up hrecv
    exact ⟨(progress_some_iff P).mpr ⟨hphase, hpiped.up P hrecv _⟩, ⟨rfl, rfl, rfl⟩,
      .used (sameInside_up hrecv)⟩
  · exact steps_refl P hp

theorem pumpDown_steps (hp : Progress P h (some g)) (n : Nat) :
    Steps P h (some g) (pumpDown h g n).1 (some (pumpDown h g n).2) := by
  obtain ⟨hphase, hpiped⟩ := (progress_some_iff P).mp hp
  unfold pumpDown
  split
  · rename_i bytes down hrecv
    exact ⟨(progress_some_iff P).mpr ⟨hphase, hpiped.down P hrecv⟩, sameFace_recv hrecv _ _ _,
      .used ⟨rfl, rfl, rfl, rfl, rfl, rfl⟩⟩
  · exact steps_refl P hp

end

theorem hopStep_steps (hp : Progress P h next) (act : HopAct K) :
    Steps P h next (hopStep P h next act).1 (hopStep P h next act).2 := by
  unfold hopStep
  split
  · exact readMode_steps P hp ‹_›
  · split
    · exact readRequest_steps P hp ‹_› _ _ _
    · exact steps_refl P hp
  · exact sendReply_steps P hp ‹_› ‹_› _ _ _
  · exact relayRequest_steps P hp ‹_› ‹_›
  · exact passReply_steps P hp
  · split
    · exact pumpDown_steps P hp _
    · exact steps_refl P hp
  · split
    · exact pumpUp_steps P hp _
    · exact steps_refl P hp
  · exact steps_refl P hp

end AnonSecNet.Telescope
