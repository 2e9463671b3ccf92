import AnonSecNet.Telescope.Progress

/-! `ecdhe_telescoped_path` of `client.c` and the chain of handlers it talks to. -/
namespace AnonSecNet.Telescope
open Octets
open Retrieval (Verify)
open MixNode (ExtendRequest recvExtendRequest)
variable {K : KeyExchange} (P : Primitives)

/-! The chain. -/

/-- Step `act` of the `k`-th handler. -/
def hopsStep : Nat → HopAct K → List (Hop K) → List (Hop K)
  | _, _, [] => []
  | 0, act, h :: rest =>
    let (h, next) := hopStep P h rest.head? act
    h :: (next.toList ++ rest.tail)
  | k + 1, act, h :: rest => h :: hopsStep k act rest

theorem hopsStep_nil (k : Nat) (act : HopAct K) : hopsStep P k act [] = [] := by
  cases k <;> rfl

theorem hopsStep_zero (act : HopAct K) (h : Hop K) (rest : List (Hop K)) :
    hopsStep P 0 act (h :: rest) = (hopStep P h rest.head? act).1 ::
      ((hopStep P h rest.head? act).2.toList ++ rest.tail) := rfl

def Chain : List (Hop K) → Prop
  | [] => True
  | h :: rest => Progress P h rest.head? ∧ Chain rest

theorem Chain.follows {hops : List (Hop K)} (hc : Chain P hops) {next : Option (Hop K)}
    (hf : Follows hops.head? next) :
    Chain P (next.toList ++ hops.tail) ∧ (next.toList ++ hops.tail).head? = next := by
  cases hops with
  | nil =>
    cases hf with
    | kept => exact ⟨trivial, rfl⟩
    | @opened g hphase hquiet hgot =>
      refine ⟨⟨?_, trivial⟩, rfl⟩
      unfold Progress
      rw [hphase]
      exact ⟨hquiet, hgot⟩
  | cons g rest =>
    cases hf with
    | kept => exact ⟨hc, rfl⟩
    | used hsame => exact ⟨⟨hc.1.inside P hsame, hc.2⟩, rfl⟩

/-- What whoever opened the connection to the chain sees of it. -/
def SameFaces : Option (Hop K) → Option (Hop K) → Prop
  | none, next => next = none
  | some g, next => ∃ g', next = some g' ∧ SameFace g g'

theorem hopsStep_chain {hops : List (Hop K)} (hc : Chain P hops) (k : Nat) (act : HopAct K) :
    Chain P (hopsStep P k act hops) ∧ SameFaces hops.head? (hopsStep P k act hops).head? := by
  induction hops generalizing k with
  | nil =>
    rw [hopsStep_nil]
    exact ⟨trivial, rfl⟩
  | cons h rest ih =>
    cases k with
    | zero =>
      rw [hopsStep_zero]
      obtain ⟨hprogress, hface, hfollows⟩ := hopStep_steps P hc.1 act
      obtain ⟨hchain, hhead⟩ := Chain.follows P hc.2 hfollows
      exact ⟨⟨hhead.symm ▸ hprogress, hchain⟩, _, rfl, hface⟩
    | succ k =>
      obtain ⟨hchain, hfaces⟩ := ih hc.2 k
      refine ⟨⟨?_, hchain⟩, h, rfl, rfl, rfl, rfl⟩
      have hp := hc.1
      cases hhead : rest.head? with
      | none =>
        rw [hhead] at hfaces hp
        rw [show (hopsStep P k act rest).head? = none from hfaces]
        exact hp
      | some g =>
        rw [hhead] at hfaces hp
        obtain ⟨g', hg', hsame⟩ := hfaces
        rw [hg']
        exact hp.face P hsame

/-! What the client and the handlers have exchanged. -/

/-- A handshake the client has completed: its frame and the answer, and what it made of them. -/
structure Leg (K : KeyExchange) where
  kp : K.Secret
  frame : WirePacket
  reply : WirePacket
  nodePub : PubKey
  master : AesKey

/-- The handshake with the node at the head of `ports`. -/
structure LegOk (verify : Verify) (role : UInt8) (ports : List UInt16) (leg : Leg K) : Prop where
  frame : recvExtendRequest leg.frame
    = some ⟨role, ports.getD 1 0, K.pubkey leg.kp⟩
  reply : ∃ pinned, recvSignedDescriptor verify pinned (ports.getD 0 0) leg.reply
    = some leg.nodePub
  master : cryptoEcdhDeriveBound K leg.kp leg.nodePub (K.pubkey leg.kp) leg.nodePub
    (ports.getD 0 0) role = some leg.master

def LegsOk (verify : Verify) (role : UInt8) (ports : List UInt16) (legs : List (Leg K)) : Prop :=
  ∀ i leg, legs[i]? = some leg → LegOk verify role (ports.drop i) leg

def framesOf (legs : List (Leg K)) : List UInt8 := legs.flatMap fun leg => leg.frame.toList
def repliesOf (legs : List (Leg K)) : List UInt8 := legs.flatMap fun leg => leg.reply.toList

/-- The client and the node at `port` of its path hold one master, which is bound to that port,
and the node connected to the next node of the path only. -/
structure Agrees (role : UInt8) (ports : List UInt16) (leg : Leg K) (h : Hop K) : Prop where
  port : h.port = ports.getD 0 0
  session : ∃ a, h.session = some a ∧ a.master = leg.master ∧ a.req.role = role ∧
    a.SetUpAt P (ports.getD 0 0)
  opened : ∀ port ∈ h.opened, ports[1]? = some port

variable {verify : Verify} {role : UInt8} {ports : List UInt16} {leg : Leg K} {legs : List (Leg K)}

theorem LegsOk.head (h : LegsOk verify role ports (leg :: legs)) : LegOk verify role ports leg :=
  h 0 leg rfl

theorem LegsOk.tail (h : LegsOk verify role ports (leg :: legs)) :
    LegsOk verify role ports.tail legs := by
  intro i l hl
  rw [List.drop_tail]
  exact h (i + 1) l hl

/-- One handshake: the node that answered `leg` is the one the client agrees with. -/
theorem agrees_of_answered (hleg : LegOk verify role ports leg) {h : Hop K} {a : Allocated K}
    {reply : WirePacket} {later back : List UInt8} (ha : Answered P h a leg.frame reply later back)
    (hreply : leg.reply = reply) (hport : h.port = ports.getD 0 0)
    (hopened : h.opened = [] ∨ (a.req.targetPort ≠ 0 ∧ h.opened = [a.req.targetPort])) :
    Agrees P role ports leg h := by
  have hreq : a.req = ⟨role, ports.getD 1 0, K.pubkey leg.kp⟩ :=
    Option.some.inj (ha.holding.request.symm.trans hleg.frame)
  obtain ⟨identityPub, sig, pad, hsent⟩ := ha.descriptor
  obtain ⟨pinned, hrecv⟩ := hleg.reply
  have hpub : leg.nodePub = K.pubkey a.nodeKp :=
    recvSignedDescriptor_sent hsent (hreply ▸ hrecv)
  refine ⟨hport, ⟨a, ha.holding.session, ?_, by rw [hreq], hport ▸ ha.holding.setUp⟩, ?_⟩
  · have hnode := ha.holding.setUp.bound
    have hclient := hleg.master
    rw [hport, hreq] at hnode
    rw [hpub] at hclient
    unfold cryptoEcdhDeriveBound at hnode hclient
    rw [K.shared_comm] at hclient
    exact Option.some.inj (hnode.symm.trans hclient)
  · intro port hmem
    rcases hopened with hopened | ⟨htarget, hopened⟩
    · rw [hopened] at hmem
      cases hmem
    · rw [hopened, List.mem_singleton] at hmem
      rw [hreq] at hmem htarget
      subst hmem
      rw [List.getD_eq_getElem?_getD] at htarget ⊢
      cases hnext : ports[1]? with
      | none =>
        rw [hnext] at htarget
        exact absurd rfl htarget
      | some port => rfl

/-- Every handshake the client completed was answered by the handler at its place: from the
first one to the last, each one's requests and answers pass through all handlers before it. -/
theorem Chain.agrees {hops : List (Hop K)} (hc : Chain P hops)
    (hlegs : LegsOk verify role ports legs) {g : Hop K} (hhead : hops.head? = some g)
    (hport : g.port = ports.getD 0 0) (hdown : g.down.sent <+: modeExtend :: framesOf legs)
    (hup : repliesOf legs <+: g.up.got) :
    ∀ i l, legs[i]? = some l → ∃ h, hops[i]? = some h ∧ Agrees P role (ports.drop i) l h := by
  induction legs generalizing hops ports g with
  | nil =>
    intro i l hl
    cases hl
  | cons leg legs ih =>
    obtain ⟨rest, rfl⟩ : ∃ rest, hops = g :: rest := List.head?_eq_some_iff.mp hhead
    obtain ⟨hprogress, hrest⟩ := hc
    have hanswer : leg.reply.toList ++ repliesOf legs <+: g.up.sent :=
      hup.trans g.up.got_isPrefix_sent
    have hrequest : g.down.got <+: modeExtend :: (leg.frame.toList ++ framesOf legs) :=
      g.down.got_isPrefix_sent.trans hdown
    have hsent : g.up.sent ≠ [] := by
      intro hnil
      have hlen := hanswer.length_le
      simp [hnil] at hlen
    obtain ⟨a, frame, reply, later, back, ha, hnext⟩ := hprogress.answered P hsent
    rw [ha.sent] at hanswer
    rw [ha.got] at hrequest
    obtain ⟨hreply, hback⟩ := Fifo.block_of_isPrefix hanswer (by simp)
    obtain ⟨hframe, hlater⟩ :=
      Fifo.block_of_isPrefix (List.cons_prefix_cons.mp hrequest).2 (by simp)
    obtain rfl : frame = leg.frame := Bytes.ext hframe
    intro i l hl
    cases i with
    | zero =>
      obtain rfl := Option.some.inj hl
      refine ⟨g, rfl, agrees_of_answered P hlegs.head ha (Bytes.ext hreply) hport ?_⟩
      rcases hnext with ⟨_, hopened, _⟩ | ⟨_, _, _, hlink⟩
      · exact .inl hopened
      · exact .inr ⟨hlink.relays.2, hlink.opened⟩
    | succ i =>
      rcases hnext with ⟨_, _, rfl⟩ | ⟨g', hg', rfl, hlink⟩
      · -- nothing comes back through a handler that has no next node
        have hmem : l ∈ legs := List.mem_of_getElem? hl
        have hnone := List.flatMap_eq_nil_iff.mp (List.prefix_nil.mp hback) l hmem
        have hlen := l.reply.length_eq
        rw [hnone] at hlen
        cases hlen
      · have hreq := Option.some.inj (ha.holding.request.symm.trans hlegs.head.frame)
        have hport' : g'.port = ports.tail.getD 0 0 := by
          rw [hlink.port, hreq]
          cases ports <;> rfl
        have hdown' : g'.down.sent <+: modeExtend :: framesOf legs := by
          rw [hlink.sent]
          exact List.cons_prefix_cons.mpr ⟨rfl, hlater⟩
        obtain ⟨h', hh', hagrees⟩ := ih hrest hlegs.tail hg' hport' hdown' hback i l hl
        rw [List.drop_tail] at hagrees
        exact ⟨h', hh', hagrees⟩

end AnonSecNet.Telescope
