import AnonSecNet.Cache.Heartbeat
import AnonSecNet.Cache.Pending

/-! What the connections to the cache server have done, and what one of them does to the table
of pending handshakes. -/
namespace AnonSecNet.Cache
open Octets

/-- A request that was read, and its reply. -/
structure Served where
  frame : Frame
  reply : List UInt8

def Served.Is (e : Served) (type : RequestType) (key : CacheKey) : Prop :=
  RequestType.ofCode e.frame.type = some type ∧ e.frame.key = key

/-- A HANDSHAKE_INIT that was accepted. -/
def Served.Inits (e : Served) (key : CacheKey) (pub : List UInt8) : Prop :=
  e.Is .handshakeInit key ∧ e.frame.data.1 = pub ∧ e.reply = ackReply true

/-- A HANDSHAKE_RESPOND that was accepted. -/
def Served.Posts (e : Served) (key : CacheKey) (resp : List UInt8) : Prop :=
  e.Is .handshakeRespond key ∧ e.frame.data.1 = resp ∧ e.reply = ackReply true

/-- A HANDSHAKE_POLL that got a response. -/
def Served.Returns (e : Served) (key : CacheKey) (resp : List UInt8) : Prop :=
  e.Is .handshakePoll key ∧ e.reply = framed (0x01 :: resp)

/-- The entry of `key` is written. -/
def Served.Writes (e : Served) (key : CacheKey) : Prop :=
  (∃ pub, e.Inits key pub) ∨ (∃ resp, e.Posts key resp) ∨ ∃ resp, e.Returns key resp

/-- The server with all that it has served, the oldest first. -/
structure Log where
  state : CacheState
  events : List Served

def Log.initial : Log := ⟨.initial, []⟩

def Log.frame (l : Log) (f : Frame) (now : Nat) : Log :=
  ⟨(serveFrame l.state f now).2, l.events ++ [⟨f, (serveFrame l.state f now).1⟩]⟩

def Log.step (l : Log) (c : Connection) : Log :=
  match parseFrame c.inp with
  | some f => l.frame f c.now
  | none => l

theorem framed_inj {body body' : List UInt8} (h : framed body = framed body') : body = body' := by
  unfold framed at h
  exact (List.append_inj h (by simp)).2

/-- What a request makes of the pending handshakes, and its reply: an INIT takes a slot, a
RESPOND or a POLL writes the slot of its key, or the table stays as it is. -/
inductive PendingEffect (s : CacheState) (f : Frame) (now : Nat) :
    List UInt8 → (Fin maxPending → PendingHandshake) → Prop where
  | quiet {reply : List UInt8} (h : ∀ key, ¬ (⟨f, reply⟩ : Served).Writes key) :
      PendingEffect s f now reply s.pending
  | init (i : Fin maxPending) (hdata : f.data.1.length = ecPubkeyLen)
      (hinit : (⟨f, ackReply true⟩ : Served).Inits f.key f.data.1)
      (hslot : (pendingFind s f.key).or (pendingFree s now) = some i) :
      PendingEffect s f now (ackReply true) (Function.update s.pending i
        { s.pending i with
          key := f.key, rEphemeralPub := ⟨f.data.1, hdata⟩, ready := false, inUse := true
          createdMs := now })
  | respond (i : Fin maxPending)
      (hdata : ecPubkeyLen + 2 ≤ f.data.1.length ∧ f.data.1.length ≤ maxRespData)
      (hposts : (⟨f, ackReply true⟩ : Served).Posts f.key f.data.1)
      (hfind : pendingFind s f.key = some i) :
      PendingEffect s f now (ackReply true) (Function.update s.pending i
        { s.pending i with respData := ⟨f.data.1, hdata.2⟩, ready := true })
  | poll (i : Fin maxPending) (hready : (s.pending i).ready = true)
      (hreturns : (⟨f, framed (0x01 :: (s.pending i).respData.1)⟩ : Served).Returns f.key
        (s.pending i).respData.1)
      (hfind : pendingFind s f.key = some i) :
      PendingEffect s f now (framed (0x01 :: (s.pending i).respData.1))
        (Function.update s.pending i { s.pending i with inUse := false })

/-- A request of another type, or one that was refused, writes no entry. -/
theorem not_writes {f : Frame} {reply : List UInt8}
    (hinit : RequestType.ofCode f.type = some .handshakeInit → reply ≠ ackReply true)
    (hrespond : RequestType.ofCode f.type = some .handshakeRespond → reply ≠ ackReply true)
    (hpoll : RequestType.ofCode f.type = some .handshakePoll →
      ∀ resp, reply ≠ framed (0x01 :: resp)) (key : CacheKey) :
    ¬ (⟨f, reply⟩ : Served).Writes key := by
  rintro (⟨pub, h⟩ | ⟨resp, h⟩ | ⟨resp, h⟩)
  · exact hinit h.1.1 h.2.2
  · exact hrespond h.1.1 h.2.2
  · exact hpoll h.1.1 resp h.2

theorem ackReply_refused : ackReply false ≠ ackReply true := by decide

theorem framed_waiting (resp : List UInt8) : framed [0x00] ≠ framed (0x01 :: resp) := by
  intro h
  have hstatus := (List.cons.inj (framed_inj h)).1
  exact absurd hstatus (by decide)

theorem serveFrame_effect (s : CacheState) (f : Frame) (now : Nat) :
    PendingEffect s f now (serveFrame s f now).1 (serveFrame s f now).2.pending := by
  unfold serveFrame
  split
  · rename_i htype
    exact .quiet (not_writes (by simp [htype]) (by simp [htype]) (by simp [htype]))
  · rename_i htype
    exact .quiet (not_writes (by simp [htype]) (by simp [htype]) (by simp [htype]))
  · rename_i htype
    have hrefused : ∀ key, ¬ (⟨f, ackReply false⟩ : Served).Writes key :=
      not_writes (fun _ => ackReply_refused) (by simp [htype]) (by simp [htype])
    unfold handleHandshakeInit
    split
    · rename_i hdata
      split
      · exact .quiet hrefused
      · rename_i i hslot
        exact .init i hdata ⟨⟨htype, rfl⟩, rfl, rfl⟩ hslot
    · exact .quiet hrefused
  · rename_i htype
    have hwaiting : ∀ key, ¬ (⟨f, framed [0x00]⟩ : Served).Writes key :=
      not_writes (by simp [htype]) (by simp [htype]) fun _ => framed_waiting
    unfold handleHandshakePoll
    split
    · rename_i i hfind
      split
      · rename_i hready
        exact .poll i hready ⟨⟨htype, rfl⟩, rfl⟩ hfind
      · exact .quiet hwaiting
    · exact .quiet hwaiting
  · rename_i htype
    exact .quiet (not_writes (by simp [htype]) (by simp [htype]) (by simp [htype]))
  · rename_i htype
    have hrefused : ∀ key, ¬ (⟨f, ackReply false⟩ : Served).Writes key :=
      not_writes (by simp [htype]) (fun _ => ackReply_refused) (by simp [htype])
    unfold handleHandshakeRespond
    split
    · rename_i hdata
      split
      · rename_i i hfind
        exact .respond i hdata ⟨⟨htype, rfl⟩, rfl, rfl⟩ hfind
      · exact .quiet hrefused
    · exact .quiet hrefused
  · rename_i htype
    exact .quiet (not_writes (by simp [htype]) (by simp [htype]) (by simp [htype]))

end AnonSecNet.Cache
