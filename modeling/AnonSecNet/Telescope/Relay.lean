import AnonSecNet.Foundation.Fifo
import AnonSecNet.Gateway.Sessions
import AnonSecNet.MixNode.Handlers
import AnonSecNet.Telescope.Descriptor

/-! `handle_extend` on its connections: a node answers its own request, opens a connection to
the next node, and is a pipe from there on. -/
namespace AnonSecNet.Telescope
open Octets
open Sender (Signature)
open MixNode (ExtendRequest recvExtendRequest extendMaster isAllowedNextHop)
variable (K : KeyExchange) (P : Primitives)

def modeExtend : UInt8 := 0x01

/-- The size of the buffer of `proxy_bidirectional`. -/
def proxyChunk : Nat := 4096

/-- The session table of the node a handler runs in. -/
inductive Store where
  | mix (t : MixNode.Table)
  | gateway (t : Gateway.Table)

/-- The service gateway has a port of its own. -/
def Store.servesAt : Store → UInt16 → Prop
  | .mix _, port => port ≠ portServiceGw
  | .gateway _, port => port = portServiceGw

instance : (store : Store) → (port : UInt16) → Decidable (store.servesAt port)
  | .mix _, port => inferInstanceAs (Decidable (port ≠ portServiceGw))
  | .gateway _, port => inferInstanceAs (Decidable (port = portServiceGw))

inductive Slot where
  | mix (entry : MixNode.SessionEntry)
  | gateway (sess : Gateway.SgSession)

/-- A session a handler has set up: the key pair of the node at that moment, the request, the
master and what is in the slot. -/
structure Allocated where
  nodeKp : K.Secret
  req : ExtendRequest
  master : AesKey
  slot : Slot

def setUp (port : UInt16) (nodeKp : K.Secret) (frame : WirePacket) (now : Nat) :
    Store → Option (Allocated K)
  | .mix t =>
    (MixNode.handleExtend K P nodeKp port t frame now).map fun (req, master, i, t) =>
      ⟨nodeKp, req, master, .mix (t i)⟩
  | .gateway t =>
    (recvExtendRequest frame).bind fun req =>
      (extendMaster K nodeKp port req).bind fun master =>
        (Gateway.sessAlloc t now).map fun _ =>
          ⟨nodeKp, req, master, .gateway (Gateway.extendedSession P master req.role now)⟩

/-- What a handler thread waits for. -/
inductive Phase where
  | accepted
  | request
  | replying
  | relaying
  | relayReply
  | proxying
  | returned
deriving DecidableEq

/-- A handler with the connection it was accepted on: `down` leads to it, `up` back to where
the connection came from. `opened` lists the ports it connected to itself. -/
structure Hop where
  port : UInt16
  phase : Phase
  down : Fifo UInt8
  up : Fifo UInt8
  session : Option (Allocated K)
  opened : List UInt16

/-- A connection that was just accepted at `port`. -/
def Hop.accept (port : UInt16) : Hop K := ⟨port, .accepted, .empty, .empty, none, []⟩

/-- A move of a handler thread. A thread whose next call blocks stays where it is, and one that
is never scheduled again stands for one that failed. -/
inductive HopAct where
  | mode
  | extend (nodeKp : K.Secret) (store : Store) (now : Nat)
  | reply (identityPub : PubKey) (sig : Signature) (pad : WirePacket)
  | relay
  | relayReply
  | pumpDown (n : Nat)
  | pumpUp (n : Nat)

variable {K}

/-- The gateway is always the last node, whatever the request says. -/
def Hop.relaysTo (h : Hop K) (a : Allocated K) : Prop :=
  h.port ≠ portServiceGw ∧ a.req.targetPort ≠ 0

instance (h : Hop K) (a : Allocated K) : Decidable (h.relaysTo a) :=
  inferInstanceAs (Decidable (_ ∧ _))

def readMode (h : Hop K) : Hop K :=
  match h.down.recv 1 with
  | some (mode, down) =>
    { h with down, phase := if mode = [modeExtend] then .request else .returned }
  | none => h

def readRequest (h : Hop K) (nodeKp : K.Secret) (store : Store) (now : Nat) : Hop K :=
  match h.down.recv wirePacketSize with
  | some (frame, down) =>
    match setUp K P h.port nodeKp (Bytes.fit _ frame) now store with
    | some a => { h with down, session := some a, phase := .replying }
    | none => { h with down, phase := .returned }
  | none => h

def sendReply (h : Hop K) (a : Allocated K) (identityPub : PubKey) (sig : Signature)
    (pad : WirePacket) : Hop K :=
  match netSendPaddedFrame (descriptorBytes (K.pubkey a.nodeKp) identityPub sig) pad with
  | some frame =>
    { h with
      up := h.up.send frame.toList
      phase := if h.relaysTo a then .relaying else .returned }
  | none => { h with phase := .returned }

/-- Reads the frame for the next node, connects and passes it on. -/
def relayRequest (h : Hop K) (a : Allocated K) : Hop K × Option (Hop K) :=
  match h.down.recv wirePacketSize with
  | some (frame, down) =>
    if isAllowedNextHop localhostBytes a.req.targetPort then
      let next := Hop.accept K a.req.targetPort
      ({ h with down, opened := h.opened ++ [a.req.targetPort], phase := .relayReply },
        some { next with down := next.down.send (modeExtend :: frame) })
    else ({ h with down, phase := .returned }, none)
  | none => (h, none)

def passReply (h next : Hop K) : Hop K × Hop K :=
  match next.up.recv wirePacketSize with
  | some (reply, up) => ({ h with up := h.up.send reply, phase := .proxying }, { next with up })
  | none => (h, next)

/-- `n` bytes through `proxy_bidirectional` towards the last node. -/
def pumpDown (h next : Hop K) (n : Nat) : Hop K × Hop K :=
  match h.down.recv n with
  | some (bytes, down) => ({ h with down }, { next with down := next.down.send bytes })
  | none => (h, next)

def pumpUp (h next : Hop K) (n : Nat) : Hop K × Hop K :=
  match next.up.recv n with
  | some (bytes, up) => ({ h with up := h.up.send bytes }, { next with up })
  | none => (h, next)

/-- A handler and the handler of the connection it opened. -/
def hopStep (h : Hop K) (next : Option (Hop K)) (act : HopAct K) : Hop K × Option (Hop K) :=
  match h.phase, act, h.session, next with
  | .accepted, .mode, _, _ => (readMode h, next)
  | .request, .extend nodeKp store now, _, _ =>
    if store.servesAt h.port then (readRequest P h nodeKp store now, next) else (h, next)
  | .replying, .reply identityPub sig pad, some a, _ => (sendReply h a identityPub sig pad, next)
  | .relaying, .relay, some a, none => relayRequest h a
  | .relayReply, .relayReply, _, some g =>
    let (h, g) := passReply h g
    (h, some g)
  | .proxying, .pumpDown n, _, some g =>
    if n ≤ proxyChunk then let (h, g) := pumpDown h g n; (h, some g) else (h, some g)
  | .proxying, .pumpUp n, _, some g =>
    if n ≤ proxyChunk then let (h, g) := pumpUp h g n; (h, some g) else (h, some g)
  | _, _, _, _ => (h, next)

end AnonSecNet.Telescope
