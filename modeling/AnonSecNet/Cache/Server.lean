import AnonSecNet.Config
import AnonSecNet.Foundation.Keyed
import AnonSecNet.Foundation.Machine
import Mathlib.Data.List.TakeWhile

/-! `cache_server.c`: the content store, the table of pending handshakes, and what one
connection does to them. -/
namespace AnonSecNet.Cache
open Octets

@[simp] abbrev maxKeyLen : Nat := 64
@[simp] abbrev maxContentLen : Nat := maxInnerPayload - 4
@[simp] abbrev maxEntries : Nat := 256
@[simp] abbrev maxPending : Nat := 64
@[simp] abbrev maxRespData : Nat := 256
def pendingTtlMs : Nat := 30000

/-- The C string at the start of a buffer: all that `strcmp` and `strlen` see. -/
def cstr (raw : List UInt8) : List UInt8 := raw.takeWhile (· ≠ 0)

theorem length_cstr_le (raw : List UInt8) : (cstr raw).length ≤ raw.length :=
  List.Sublist.length_le (List.takeWhile_sublist _)

theorem zero_notMem_cstr (raw : List UInt8) : 0 ∉ cstr raw := by
  intro hmem
  simpa using List.mem_takeWhile_imp hmem

abbrev CacheKey : Type := { k : List UInt8 // k.length ≤ maxKeyLen }
abbrev Content : Type := { d : List UInt8 // d.length ≤ maxContentLen }

/-- `pending_handshake_t`. -/
structure PendingHandshake where
  key : CacheKey
  rEphemeralPub : Bytes ecPubkeyLen
  ready : Bool
  respData : { d : List UInt8 // d.length ≤ maxRespData }
  inUse : Bool
  createdMs : Nat

/-- `g_store` with `g_count`, and `g_pending`. -/
structure CacheState where
  store : Keyed.Store CacheKey Content maxEntries
  pending : Fin maxPending → PendingHandshake

def zeroPending : PendingHandshake :=
  ⟨⟨[], by simp⟩, Bytes.zero _, false, ⟨[], by simp⟩, false, 0⟩

def CacheState.initial : CacheState := ⟨.empty, fun _ => zeroPending⟩

/-! The replies on the wire. -/

def ackReply (ok : Bool) : List UInt8 := [0, 1, if ok then 0x01 else 0x00]

/-- `[rlen(2)][data(rlen)]`. -/
def framed (body : List UInt8) : List UInt8 := (bigEndian 2 body.length).toList ++ body

/-! The content store. -/

def storePut (s : CacheState) (key : CacheKey) (data : Content) : Bool × CacheState :=
  ((s.store.put key data).1, { s with store := (s.store.put key data).2 })

def handlePut (s : CacheState) (key : CacheKey) (data : Content) : List UInt8 × CacheState :=
  (ackReply (storePut s key data).1, (storePut s key data).2)

def handleGet (s : CacheState) (key : CacheKey) : List UInt8 :=
  match s.store.get key with
  | none => [0, 0]
  | some content => framed content.1

/-! The pending handshakes. -/

def pendingFind (s : CacheState) (key : CacheKey) : Option (Fin maxPending) :=
  (List.finRange maxPending).find? fun i => (s.pending i).inUse ∧ (s.pending i).key = key

/-- The first slot that is free or stale. -/
def pendingFree (s : CacheState) (now : Nat) : Option (Fin maxPending) :=
  (List.finRange maxPending).find? fun i =>
    (s.pending i).inUse = false ∨ pendingTtlMs < ticksSince now (s.pending i).createdMs

def CacheState.setPending (s : CacheState) (i : Fin maxPending) (p : PendingHandshake) :
    CacheState := { s with pending := Function.update s.pending i p }

def handleHandshakeInit (s : CacheState) (key : CacheKey) (data : Content) (now : Nat) :
    List UInt8 × CacheState :=
  if h : data.1.length = ecPubkeyLen then
    match (pendingFind s key).or (pendingFree s now) with
    | none => (ackReply false, s)
    | some i =>
      (ackReply true, s.setPending i
        { s.pending i with
          key := key, rEphemeralPub := ⟨data.1, h⟩, ready := false, inUse := true
          createdMs := now })
  else (ackReply false, s)

/-- A response that is ready is handed out once. -/
def handleHandshakePoll (s : CacheState) (key : CacheKey) : List UInt8 × CacheState :=
  match pendingFind s key with
  | some i =>
    if (s.pending i).ready then
      (0x01 :: (s.pending i).respData.1, s.setPending i { s.pending i with inUse := false })
    else ([0x00], s)
  | none => ([0x00], s)

def handleHandshakeRespond (s : CacheState) (key : CacheKey) (data : Content) :
    List UInt8 × CacheState :=
  if h : ecPubkeyLen + 2 ≤ data.1.length ∧ data.1.length ≤ maxRespData then
    match pendingFind s key with
    | some i =>
      (ackReply true, s.setPending i { s.pending i with respData := ⟨data.1, h.2⟩, ready := true })
    | none => (ackReply false, s)
  else (ackReply false, s)

/-- `[klen(1)][key][r_ephemeral_pub]`. -/
def heartbeatEntry (p : PendingHandshake) : List UInt8 :=
  UInt8.ofNat p.key.1.length :: p.key.1 ++ p.rEphemeralPub.toList

/-- The loop over the slots: `acc` is `rbuf` behind its first byte. -/
def heartbeatLoop : List PendingHandshake → List UInt8 → Nat → List UInt8 × Nat
  | [], acc, count => (acc, count)
  | p :: ps, acc, count =>
    if 255 ≤ count then (acc, count)
    else if p.inUse = false ∨ p.ready = true then heartbeatLoop ps acc count
    else if maxInnerPayload < 1 + acc.length + (1 + p.key.1.length + ecPubkeyLen) then (acc, count)
    else heartbeatLoop ps (acc ++ heartbeatEntry p) (count + 1)

def handleHeartbeat (s : CacheState) : List UInt8 :=
  let (acc, count) := heartbeatLoop (List.ofFn s.pending) [] 0
  UInt8.ofNat count :: acc

theorem handleHandshakePoll_reply (s : CacheState) (key : CacheKey) :
    (handleHandshakePoll s key).1 ≠ [] ∧
      (handleHandshakePoll s key).1.length ≤ 1 + maxRespData := by
  unfold handleHandshakePoll
  split
  · rename_i i _
    have := (s.pending i).respData.2
    split
    · exact ⟨List.cons_ne_nil _ _, by simp at this ⊢; omega⟩
    · exact ⟨List.cons_ne_nil _ _, by simp⟩
  · exact ⟨List.cons_ne_nil _ _, by simp⟩

/-! One connection. -/

/-- What `handle_connection` has read when it looks at the type. -/
structure Frame where
  type : UInt8
  key : CacheKey
  data : Content

def parseFrame : List UInt8 → Option Frame
  | type :: klen :: rest =>
    if hk : klen = 0 ∨ maxKeyLen < klen.toNat ∨ rest.length < klen.toNat + 2 then none
    else
      let dlen := valueList ((rest.drop klen.toNat).take 2)
      if hd : maxContentLen < dlen ∨ rest.length < klen.toNat + 2 + dlen then none
      else
        some ⟨type,
          ⟨cstr (rest.take klen.toNat),
            (length_cstr_le _).trans (by simp at hk ⊢; omega)⟩,
          ⟨(rest.drop (klen.toNat + 2)).take dlen, by simp at hd ⊢; omega⟩⟩
  | _ => none

theorem parseFrame_key {inp : List UInt8} {f : Frame} (h : parseFrame inp = some f) :
    0 ∉ f.key.1 := by
  unfold parseFrame at h
  split at h
  · split at h
    · cases h
    · dsimp only at h
      split at h
      · cases h
      · obtain rfl := Option.some.inj h
        exact zero_notMem_cstr _
  · cases h

/-- The reply and the state after it; a type that is not known gets no reply. -/
def serveFrame (s : CacheState) (f : Frame) (now : Nat) : List UInt8 × CacheState :=
  match RequestType.ofCode f.type with
  | some .put => handlePut s f.key f.data
  | some .get => (handleGet s f.key, s)
  | some .handshakeInit => handleHandshakeInit s f.key f.data now
  | some .handshakePoll =>
    (framed (handleHandshakePoll s f.key).1, (handleHandshakePoll s f.key).2)
  | some .heartbeat => (framed (handleHeartbeat s), s)
  | some .handshakeRespond => handleHandshakeRespond s f.key f.data
  | none => ([], s)

def handleConnection (s : CacheState) (inp : List UInt8) (now : Nat) : List UInt8 × CacheState :=
  match parseFrame inp with
  | some f => serveFrame s f now
  | none => ([], s)

/-- A connection: its input and the time it is served. -/
structure Connection where
  inp : List UInt8
  now : Nat

def serve (s : CacheState) (c : Connection) : CacheState := (handleConnection s c.inp c.now).2

/-! The store over a run of connections. -/

def Connection.PutsTo (c : Connection) (key : CacheKey) : Prop :=
  ∃ f, parseFrame c.inp = some f ∧ RequestType.ofCode f.type = some .put ∧ f.key = key

/-- A connection leaves the store alone or puts one content into it. -/
theorem serve_store (s : CacheState) (c : Connection) :
    (serve s c).store = s.store ∨
      ∃ key data, c.PutsTo key ∧ (serve s c).store = (s.store.put key data).2 := by
  unfold serve handleConnection
  split
  · rename_i f hf
    unfold serveFrame
    split
    · rename_i hput
      exact Or.inr ⟨f.key, f.data, ⟨f, hf, hput, rfl⟩, rfl⟩
    · exact Or.inl rfl
    · unfold handleHandshakeInit
      split
      · split <;> exact Or.inl rfl
      · exact Or.inl rfl
    · unfold handleHandshakePoll
      split
      · split <;> exact Or.inl rfl
      · exact Or.inl rfl
    · exact Or.inl rfl
    · unfold handleHandshakeRespond
      split
      · split <;> exact Or.inl rfl
      · exact Or.inl rfl
    · exact Or.inl rfl
  · exact Or.inl rfl

/-- A key that is stored stays stored. -/
theorem run_stored (cs : List Connection) {s : CacheState} {key : CacheKey}
    (h : (s.store.get key).isSome) : ((Machine.run serve cs s).store.get key).isSome := by
  induction cs generalizing s with
  | nil => exact h
  | cons c cs ih =>
    refine ih ?_
    rcases serve_store s c with hsame | ⟨key', data, -, hput⟩
    · rw [hsame]
      exact h
    · rw [hput]
      exact s.store.isSome_get_put h key' data

/-- Only a PUT to the key changes what is stored under it. -/
theorem run_get {cs : List Connection} {key : CacheKey} (h : ∀ c ∈ cs, ¬ c.PutsTo key)
    (s : CacheState) : (Machine.run serve cs s).store.get key = s.store.get key := by
  induction cs generalizing s with
  | nil => rfl
  | cons c cs ih =>
    have htail := ih (fun c hc => h c (List.mem_cons_of_mem _ hc)) (serve s c)
    refine htail.trans ?_
    rcases serve_store s c with hsame | ⟨key', data, hputs, hput⟩
    · rw [hsame]
    · have hne : key ≠ key' := fun heq => h c List.mem_cons_self (heq ▸ hputs)
      rw [hput, Keyed.Store.get_put_of_ne hne]

end AnonSecNet.Cache
