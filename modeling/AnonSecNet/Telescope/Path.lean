import AnonSecNet.Foundation.Machine
import AnonSecNet.Telescope.Chain

/-! `ecdhe_telescoped_path` of `client.c` together with the handlers on its path, under any
scheduling. -/
namespace AnonSecNet.Telescope
open Octets
open Retrieval (Verify)
open MixNode (ExtendRequest recvExtendRequest recvExtendRequest_sent)
variable (K : KeyExchange) (P : Primitives) (verify : Verify) (role : UInt8) (ports : List UInt16)

/-- Where the client is; `awaiting` holds the key pair of the hop it waits for. -/
inductive PathPhase where
  | connecting
  | sending
  | awaiting (kp : K.Secret)
  | finished (ok : Bool)

/-- The arrays are filled up to the hop the client is at. -/
structure PathState where
  phase : PathPhase K
  masters : List AesKey
  hints : List Hint
  nodePubs : List PubKey

def PathState.initial : PathState K := ⟨.connecting, [], [], []⟩

/-- `pinned` is the pin check at the time of the answer. -/
inductive PathAct where
  | connect
  | send (kp : K.Secret) (pad : WirePacket)
  | receive (pinned : PinCheck)
  | fail

variable {K}

/-- The request of hop `i`; the last one has no next port. -/
def pathRequest (i : Nat) (kp : K.Secret) : ExtendRequest :=
  ⟨role, ports.getD (i + 1) 0, K.pubkey kp⟩

def sendRequest (s : PathState K) (kp : K.Secret) (pad : WirePacket) (g : Hop K) :
    PathState K × Hop K :=
  let i := s.masters.length
  match netSendPaddedFrame (pathRequest role ports i kp).bytes pad with
  | some frame =>
    -- the mode byte goes before the first frame only
    let mode := if i = 0 then [modeExtend] else []
    ({ s with hints := s.hints ++ [(K.pubkey kp).read 1 hintBytes], phase := .awaiting kp },
      { g with down := g.down.send (mode ++ frame.toList) })
  | none => (s, g)

/-- Node key and master of hop `i`. -/
def openReply (pinned : PinCheck) (i : Nat) (kp : K.Secret) (frame : WirePacket) :
    Option (PubKey × AesKey) :=
  (recvSignedDescriptor verify pinned (ports.getD i 0) frame).bind fun nodePub =>
    (cryptoEcdhDeriveBound K kp nodePub (K.pubkey kp) nodePub (ports.getD i 0) role).map
      fun master => (nodePub, master)

def receiveReply (s : PathState K) (kp : K.Secret) (pinned : PinCheck) (g : Hop K) :
    PathState K × Hop K :=
  let i := s.masters.length
  match g.up.recv wirePacketSize with
  | some (frame, up) =>
    match openReply verify role ports pinned i kp (Bytes.fit _ frame) with
    | some (nodePub, master) =>
      ({ s with
          masters := s.masters ++ [master]
          nodePubs := s.nodePubs ++ [nodePub]
          phase := if i + 1 < ports.length then .sending else .finished true }, { g with up })
    | none => ({ s with phase := .finished false }, { g with up })
  | none => (s, g)

def pathStep (s : PathState K) (next : Option (Hop K)) (act : PathAct K) :
    PathState K × Option (Hop K) :=
  match s.phase, act, next with
  | .finished _, _, next => (s, next)
  | _, .fail, next => ({ s with phase := .finished false }, next)
  | .connecting, .connect, none =>
    match ports with
    | [] => (s, none)
    | port :: _ => ({ s with phase := .sending }, some (Hop.accept K port))
  | .sending, .send kp pad, some g =>
    let (s, g) := sendRequest role ports s kp pad g
    (s, some g)
  | .awaiting kp, .receive pinned, some g =>
    let (s, g) := receiveReply verify role ports s kp pinned g
    (s, some g)
  | _, _, next => (s, next)

variable (K)

/-- The client and the handlers, in the order in which they were connected to. -/
structure System where
  path : PathState K
  hops : List (Hop K)

def System.initial : System K := ⟨.initial K, []⟩

inductive Act where
  | path (act : PathAct K)
  | hop (k : Nat) (act : HopAct K)

variable {K}

def systemStep (s : System K) : Act K → System K
  | .path act =>
    let (path, next) := pathStep verify role ports s.path s.hops.head? act
    ⟨path, next.toList ++ s.hops.tail⟩
  | .hop k act => { s with hops := hopsStep P k act s.hops }

/-- A call of `ecdhe_telescoped_path`, every thread taking its steps as `acts` says. -/
def telescopedRun (acts : List (Act K)) : System K :=
  Machine.run (systemStep P verify role ports) acts (.initial K)

/-! The client's side of its first connection. -/

/-- What it has sent: the mode byte and the frames. -/
def sentBytes (frames : List UInt8) : List UInt8 :=
  if frames = [] then [] else modeExtend :: frames

/-- `legs` are complete; `asked` is the frame that is still unanswered. -/
structure Talked (s : PathState K) (legs : List (Leg K)) (asked : List UInt8) (g : Hop K) :
    Prop where
  ok : LegsOk verify role ports legs
  masters : s.masters = legs.map Leg.master
  port : g.port = ports.getD 0 0
  sent : g.down.sent = sentBytes (framesOf legs ++ asked)
  got : g.up.got = repliesOf legs

def Talks (s : PathState K) (next : Option (Hop K)) : Prop :=
  match s.phase with
  | .connecting => next = none ∧ s.masters = []
  | .sending =>
    ∃ (legs : List (Leg K)) (g : Hop K), next = some g ∧
      Talked verify role ports s legs [] g ∧ legs.length < ports.length
  | .awaiting kp =>
    ∃ (legs : List (Leg K)) (g : Hop K) (frame : WirePacket), next = some g ∧
      Talked verify role ports s legs frame.toList g ∧
      legs.length < ports.length ∧
      recvExtendRequest frame = some (pathRequest role ports legs.length kp)
  | .finished true =>
    ∃ (legs : List (Leg K)) (g : Hop K), next = some g ∧
      Talked verify role ports s legs [] g ∧ legs.length = ports.length
  | .finished false => True

section
variable {verify role ports}
variable {s : PathState K} {legs : List (Leg K)} {asked : List UInt8} {g g' : Hop K}

theorem Talked.face (h : Talked verify role ports s legs asked g) (hsame : SameFace g g') :
    Talked verify role ports s legs asked g' :=
  ⟨h.ok, h.masters, hsame.port.trans h.port, hsame.downSent.trans h.sent,
    hsame.upGot.trans h.got⟩

theorem Talks.faces {next next' : Option (Hop K)} (h : Talks verify role ports s next)
    (hsame : SameFaces next next') : Talks verify role ports s next' := by
  cases next with
  | none =>
    obtain rfl : next' = none := hsame
    exact h
  | some g =>
    obtain ⟨g', rfl, hface⟩ := hsame
    unfold Talks at h ⊢
    cases hphase : s.phase with
    | connecting =>
      rw [hphase] at h
      cases h.1
    | sending =>
      rw [hphase] at h
      obtain ⟨legs, n, hn, htalked, hlen⟩ := h
      obtain rfl := Option.some.inj hn
      exact ⟨legs, g', rfl, htalked.face hface, hlen⟩
    | awaiting kp =>
      rw [hphase] at h
      obtain ⟨legs, n, frame, hn, htalked, hlen, hreq⟩ := h
      obtain rfl := Option.some.inj hn
      exact ⟨legs, g', frame, rfl, htalked.face hface, hlen, hreq⟩
    | finished ok =>
      rw [hphase] at h
      cases ok with
      | false => trivial
      | true =>
        obtain ⟨legs, n, hn, htalked, hlen⟩ := h
        obtain rfl := Option.some.inj hn
        exact ⟨legs, g', rfl, htalked.face hface, hlen⟩

theorem length_masters (h : Talked verify role ports s legs asked g) :
    s.masters.length = legs.length := by rw [h.masters, List.length_map]

/-- The mode byte goes first, the frames follow. -/
theorem sentBytes_append (legs : List (Leg K)) (frame : WirePacket) :
    sentBytes (framesOf legs ++ []) ++
        ((if legs.length = 0 then [modeExtend] else []) ++ frame.toList)
      = sentBytes (framesOf legs ++ frame.toList) := by
  have hne : ∀ (bytes : List UInt8) (block : WirePacket), bytes ++ block.toList ≠ [] := by
    intro bytes block hnil
    have hlen := congrArg List.length hnil
    simp at hlen
  rw [sentBytes, sentBytes, if_neg (hne _ _), List.append_nil]
  cases legs with
  | nil => rfl
  | cons leg legs =>
    have hframes : framesOf (leg :: legs) ≠ [] := by
      intro hnil
      have hlen := congrArg List.length hnil
      simp [framesOf] at hlen
    rw [if_neg hframes]
    rfl

theorem sendRequest_talks (h : Talked verify role ports s legs [] g)
    (hlen : legs.length < ports.length) (hphase : s.phase = .sending) (kp : K.Secret)
    (pad : WirePacket) :
    Talks verify role ports (sendRequest role ports s kp pad g).1
        (some (sendRequest role ports s kp pad g).2) ∧
      SameInside g (sendRequest role ports s kp pad g).2 := by
  unfold sendRequest
  dsimp only
  split
  · rename_i frame hframe
    refine ⟨⟨legs, _, frame, rfl, ⟨h.ok, h.masters, h.port, ?_, h.got⟩, hlen, ?_⟩,
      rfl, rfl, rfl, rfl, rfl, rfl⟩
    · rw [Fifo.sent_send, h.sent, length_masters h]
      exact sentBytes_append legs frame
    · rw [← length_masters h]
      exact recvExtendRequest_sent hframe
  · refine ⟨?_, rfl, rfl, rfl, rfl, rfl, rfl⟩
    unfold Talks
    rw [hphase]
    exact ⟨legs, g, rfl, h, hlen⟩

theorem openReply_eq_some {pinned : PinCheck} {i : Nat} {kp : K.Secret} {frame reply : WirePacket}
    {nodePub : PubKey} {master : AesKey}
    (hreq : recvExtendRequest frame = some (pathRequest role ports i kp))
    (h : openReply verify role ports pinned i kp reply = some (nodePub, master)) :
    LegOk verify role (ports.drop i) ⟨kp, frame, reply, nodePub, master⟩ := by
  obtain ⟨pub, hpub, h⟩ := Option.bind_eq_some_iff.mp h
  obtain ⟨key, hkey, h⟩ := Option.map_eq_some_iff.mp h
  obtain ⟨rfl, rfl⟩ := Prod.mk.inj h
  have hport : (ports.drop i).getD 0 0 = ports.getD i 0 := by simp
  have hnext : (ports.drop i).getD 1 0 = ports.getD (i + 1) 0 := by simp
  refine ⟨?_, ⟨pinned, ?_⟩, ?_⟩
  · rw [hnext]
    exact hreq
  · rw [hport]
    exact hpub
  · rw [hport]
    exact hkey

theorem LegsOk.concat {leg : Leg K} (h : LegsOk verify role ports legs)
    (hleg : LegOk verify role (ports.drop legs.length) leg) :
    LegsOk verify role ports (legs ++ [leg]) := by
  intro i l hl
  by_cases hi : i < legs.length
  · rw [List.getElem?_append_left hi] at hl
    exact h i l hl
  · rw [List.getElem?_append_right (by omega)] at hl
    obtain ⟨hzero, rfl⟩ : i - legs.length = 0 ∧ leg = l := by
      simpa [List.getElem?_singleton] using hl
    obtain rfl : i = legs.length := by omega
    exact hleg

theorem receiveReply_talks {kp : K.Secret} {frame : WirePacket}
    (h : Talked verify role ports s legs frame.toList g) (hlen : legs.length < ports.length)
    (hreq : recvExtendRequest frame = some (pathRequest role ports legs.length kp))
    (hphase : s.phase = .awaiting kp) (pinned : PinCheck) :
    Talks verify role ports (receiveReply verify role ports s kp pinned g).1
        (some (receiveReply verify role ports s kp pinned g).2) ∧
      SameInside g (receiveReply verify role ports s kp pinned g).2 := by
  unfold receiveReply
  dsimp only
  split
  · rename_i bytes up hrecv
    obtain ⟨hbytes, hread, _⟩ := Fifo.recv_cases hrecv
    split
    · rename_i nodePub master hopen
      rw [length_masters h] at hopen
      let leg : Leg K := ⟨kp, frame, Bytes.fit _ bytes, nodePub, master⟩
      have hreply : leg.reply.toList = bytes := by simp [leg, Bytes.fit, ← hbytes]
      have htalked : ∀ phase, Talked verify role ports
          ⟨phase, s.masters ++ [master], s.hints, s.nodePubs ++ [nodePub]⟩ (legs ++ [leg]) []
          { g with up } := by
        intro phase
        refine ⟨h.ok.concat (openReply_eq_some hreq hopen), ?_, h.port, ?_, ?_⟩
        · rw [h.masters, List.map_append]
          rfl
        · rw [h.sent, List.append_nil]
          simp [framesOf, leg]
        · rw [hread, h.got, ← hreply]
          simp [repliesOf]
      refine ⟨?_, sameInside_up hrecv⟩
      unfold Talks
      rw [length_masters h]
      split_ifs with hlast
      · exact ⟨legs ++ [leg], _, rfl, htalked _, by simpa using hlast⟩
      · exact ⟨legs ++ [leg], _, rfl, htalked _, by simp; omega⟩
    · exact ⟨trivial, sameInside_up hrecv⟩
  · refine ⟨?_, rfl, rfl, rfl, rfl, rfl, rfl⟩
    unfold Talks
    rw [hphase]
    exact ⟨legs, g, frame, rfl, h, hlen, hreq⟩

theorem pathStep_talks {next : Option (Hop K)} (h : Talks verify role ports s next)
    (act : PathAct K) :
    Talks verify role ports (pathStep verify role ports s next act).1
        (pathStep verify role ports s next act).2 ∧
      Follows next (pathStep verify role ports s next act).2 := by
  have hstay := h
  unfold pathStep
  split
  · exact ⟨hstay, .kept _⟩
  · exact ⟨trivial, .kept _⟩
  · rename_i hphase
    split
    · exact ⟨hstay, .kept _⟩
    · rename_i port rest
      unfold Talks at h
      rw [hphase] at h
      refine ⟨⟨[], _, rfl, ⟨?_, h.2, rfl, rfl, rfl⟩, Nat.succ_pos _⟩,
        .opened rfl ⟨rfl, rfl, rfl⟩ rfl⟩
      intro i leg hleg
      cases hleg
  · rename_i kp pad g hphase
    unfold Talks at h
    rw [hphase] at h
    obtain ⟨legs, n, hn, htalked, hlen⟩ := h
    obtain rfl := Option.some.inj hn
    obtain ⟨htalks, hsame⟩ := sendRequest_talks htalked hlen hphase kp pad
    exact ⟨htalks, .used hsame⟩
  · rename_i kp pinned g hphase
    unfold Talks at h
    rw [hphase] at h
    obtain ⟨legs, n, frame, hn, htalked, hlen, hreq⟩ := h
    obtain rfl := Option.some.inj hn
    obtain ⟨htalks, hsame⟩ := receiveReply_talks htalked hlen hreq hphase pinned
    exact ⟨htalks, .used hsame⟩
  · exact ⟨hstay, .kept _⟩

/-! Any run. -/

structure SystemInv (verify : Verify) (role : UInt8) (ports : List UInt16) (s : System K) :
    Prop where
  chain : Chain P s.hops
  talks : Talks verify role ports s.path s.hops.head?

theorem systemStep_inv {s : System K} (inv : SystemInv P verify role ports s) (act : Act K) :
    SystemInv P verify role ports (systemStep P verify role ports s act) := by
  cases act with
  | path act =>
    obtain ⟨htalks, hfollows⟩ := pathStep_talks inv.talks act
    obtain ⟨hchain, hhead⟩ := inv.chain.follows P hfollows
    exact ⟨hchain, hhead.symm ▸ htalks⟩
  | hop k act =>
    obtain ⟨hchain, hfaces⟩ := hopsStep_chain P inv.chain k act
    exact ⟨hchain, inv.talks.faces hfaces⟩

theorem run_inv (acts : List (Act K)) {s : System K} (inv : SystemInv P verify role ports s) :
    SystemInv P verify role ports (Machine.run (systemStep P verify role ports) acts s) := by
  induction acts generalizing s with
  | nil => exact inv
  | cons act acts ih => exact ih (systemStep_inv P inv act)

theorem initial_inv : SystemInv P verify role ports (.initial K) := ⟨trivial, rfl, rfl⟩

/-- Whatever the order of all steps: when `ecdhe_telescoped_path` returns success, the node at
every place of the path holds a session of the client's master for that place, with the role
asked for and bound to the node's own port, and no node connected to any other than the next. -/
theorem telescoped_path_agrees (acts : List (Act K))
    (hok : (telescopedRun P verify role ports acts).path.phase = .finished true) :
    (telescopedRun P verify role ports acts).path.masters.length = ports.length ∧
      ∀ i port, ports[i]? = some port →
        ∃ h a, (telescopedRun P verify role ports acts).hops[i]? = some h ∧ h.port = port ∧
          h.session = some a ∧
          (telescopedRun P verify role ports acts).path.masters[i]? = some a.master ∧
          a.req.role = role ∧ a.SetUpAt P port ∧ ∀ p ∈ h.opened, ports[i + 1]? = some p := by
  have inv : SystemInv P verify role ports (telescopedRun P verify role ports acts) :=
    run_inv P acts (initial_inv P)
  have htalks := inv.talks
  unfold Talks at htalks
  rw [hok] at htalks
  obtain ⟨legs, g, hhead, htalked, hlen⟩ := htalks
  refine ⟨(length_masters htalked).trans hlen, fun i port hport => ?_⟩
  have hi : i < legs.length := by
    rw [hlen]
    exact (List.getElem?_eq_some_iff.mp hport).1
  have hdown : g.down.sent <+: modeExtend :: framesOf legs := by
    rw [htalked.sent, List.append_nil, sentBytes]
    split
    · exact List.nil_prefix
    · exact List.prefix_refl _
  obtain ⟨h, hh, hagrees⟩ := inv.chain.agrees P htalked.ok hhead htalked.port hdown
    (by rw [htalked.got]) i legs[i] (List.getElem?_eq_getElem hi)
  obtain ⟨a, hsession, hmaster, hrole, hsetUp⟩ := hagrees.session
  have hdrop : (ports.drop i).getD 0 0 = port := by
    simp [hport]
  refine ⟨h, a, hh, hagrees.port.trans hdrop, hsession, ?_, hrole, hdrop ▸ hsetUp, fun p hp => ?_⟩
  · rw [htalked.masters, hmaster, List.getElem?_map, List.getElem?_eq_getElem hi]
    rfl
  · have hnext := hagrees.opened p hp
    rwa [List.getElem?_drop] at hnext

end

/-! Two relays and the gateway. -/

def PathState.succeeded (s : PathState K) : Bool :=
  match s.phase with
  | .finished ok => ok
  | _ => false

theorem phase_of_succeeded {s : PathState K} (h : s.succeeded = true) :
    s.phase = .finished true := by
  unfold PathState.succeeded at h
  split at h
  · rename_i hphase
    rw [hphase, h]
  · cases h

def samplePair (a : UInt8) : KeyExchange.sample.Secret := a

def sampleReply : HopAct .sample := .reply (Bytes.zero _) Sender.oneByteSignature (Bytes.zero _)

def sampleExtend (a : UInt8) (store : Store) : HopAct .sample := .extend (samplePair a) store 5

/-- The third handshake crosses the proxy of the first relay in two pieces. -/
def sampleActs : List (Act .sample) :=
  let mix := sampleExtend 3 (.mix fun _ => MixNode.zeroEntry)
  let gateway := sampleExtend 5 (.gateway fun _ => Gateway.zeroSession)
  let ask (a : UInt8) : Act .sample := .path (.send (samplePair a) (Bytes.zero _))
  let answered : Act .sample := .path (.receive fun _ _ => true)
  [.path .connect, ask 2, .hop 0 .mode, .hop 0 mix, .hop 0 sampleReply, answered,
    ask 4, .hop 0 .relay, .hop 1 .mode, .hop 1 mix, .hop 1 sampleReply, .hop 0 .relayReply,
    answered,
    ask 6, .hop 0 (.pumpDown 1000), .hop 0 (.pumpDown 24), .hop 1 .relay, .hop 2 .mode,
    .hop 2 gateway, .hop 2 sampleReply, .hop 1 .relayReply, .hop 0 (.pumpUp 1024), answered]

def sampleVerify : Verify := fun _ _ _ => true

def samplePorts : List UInt16 := [9100, 9101, portServiceGw]

set_option maxRecDepth 100000 in
theorem sampleRun_succeeded :
    (telescopedRun .sample sampleVerify sessionRoleA samplePorts sampleActs).path.succeeded
      = true := by
  decide +kernel

theorem telescoped_path_agrees_sample :
    (telescopedRun .sample sampleVerify sessionRoleA samplePorts sampleActs).path.masters.length
        = samplePorts.length ∧
      ∀ i port, samplePorts[i]? = some port →
        ∃ h a, (telescopedRun .sample sampleVerify sessionRoleA samplePorts sampleActs).hops[i]?
            = some h ∧ h.port = port ∧ h.session = some a ∧
          (telescopedRun .sample sampleVerify sessionRoleA samplePorts sampleActs).path.masters[i]?
            = some a.master ∧ a.req.role = sessionRoleA ∧ a.SetUpAt .sample port ∧
          ∀ p ∈ h.opened, samplePorts[i + 1]? = some p :=
  telescoped_path_agrees .sample sampleActs (phase_of_succeeded sampleRun_succeeded)

end AnonSecNet.Telescope
