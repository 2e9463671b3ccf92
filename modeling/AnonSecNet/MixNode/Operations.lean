import AnonSecNet.MixNode.Threads

/-! The critical sections of the session table, called in any order with what earlier
lookups handed out. -/
namespace AnonSecNet.MixNode
open Octets
variable (P : Primitives)

def Mode.nonceLen : Mode → Nat
  | .data => nonceBytes
  | .ret => returnNonceBytes

def SeenNonce.of : (mode : Mode) → Bytes mode.nonceLen → SeenNonce
  | .data, nonce => .data nonce
  | .ret, nonce => .ret nonce

@[simp] theorem SeenNonce.of_inj {mode : Mode} {nonce nonce' : Bytes mode.nonceLen} :
    SeenNonce.of mode nonce = .of mode nonce' ↔ nonce = nonce' := by
  cases mode with
  | data => exact SeenNonce.data.injEq nonce nonce' |>.to_iff
  | ret => exact SeenNonce.ret.injEq nonce nonce' |>.to_iff

/-- What a lookup handed out, with the number of allocations of its slot at that time. -/
structure Ticket where
  found : Found
  epoch : Nat

/-- The table, how often each slot was allocated, and what all lookups handed out. -/
structure TableState where
  table : Table
  epoch : Fin maxSessions → Nat
  tickets : List Ticket

namespace TableState

def initial : TableState := ⟨fun _ => zeroEntry, fun _ => 0, []⟩

/-- `session_alloc` by itself: the slot stays in use and zeroed when `handle_extend` cannot
derive the hint seed. -/
def alloc (s : TableState) (now : Nat) : Option (Fin maxSessions × TableState) :=
  (sessionAlloc s.table now).map fun (i, t) =>
    (i, { s with table := t, epoch := Function.update s.epoch i (s.epoch i + 1) })

def extend (s : TableState) (master : AesKey) (role : UInt8) (now : Nat) :
    Option (Fin maxSessions × TableState) :=
  (extendSession P s.table master role now).map fun (i, t) =>
    (i, { s with table := t, epoch := Function.update s.epoch i (s.epoch i + 1) })

def find (s : TableState) (hint : Hint) (now : Nat) : Option Ticket × TableState :=
  match sessionFind s.table hint now with
  | (none, t) => (none, { s with table := t })
  | (some f, t) =>
    (some ⟨f, s.epoch f.idx⟩, { s with table := t, tickets := s.tickets ++ [⟨f, s.epoch f.idx⟩] })

def confirm (s : TableState) (ticket : Ticket) : TableState :=
  { s with table := sessionConfirmHintMatch P s.table ticket.found }

def check (s : TableState) (ticket : Ticket) (nonce : SeenNonce) : Bool × TableState :=
  ((checkNonce s.table ticket.found nonce).1,
    { s with table := (checkNonce s.table ticket.found nonce).2 })

end TableState

inductive TableOp where
  | alloc (now : Nat)
  | extend (master : AesKey) (role : UInt8) (now : Nat)
  | find (hint : Hint) (now : Nat)
  | confirm (k : Nat)
  | check (k : Nat) (nonce : SeenNonce)

/-- The operations that carry a pair take the `k`-th one handed out. -/
def tableStep (s : TableState) : TableOp → TableState
  | .alloc now => ((s.alloc now).map Prod.snd).getD s
  | .extend master role now => ((s.extend P master role now).map Prod.snd).getD s
  | .find hint now => (s.find hint now).2
  | .confirm k => (s.tickets[k]?.map fun ticket => s.confirm P ticket).getD s
  | .check k nonce => (s.tickets[k]?.map fun ticket => (s.check ticket nonce).2).getD s

/-! What each operation does to the slots. -/

/-- The slot is another session's now: a fresh one with the next generation. -/
def Allocated (t t' : Table) (i : Fin maxSessions) : Prop :=
  ∃ sess : SessionEntry, t' = Function.update t i sess ∧ sess.inUse = true ∧
    sess.generation = ((t i).generation + 1) % 2 ^ 32 ∧
    sess.seenNonces = .empty ∧ sess.seenReturnNonces = .empty

theorem sessionAlloc_allocated {t t' : Table} {now : Nat} {i : Fin maxSessions}
    (h : sessionAlloc t now = some (i, t')) : Allocated t t' i := by
  unfold sessionAlloc at h
  obtain ⟨j, -, hj⟩ := Option.map_eq_some_iff.mp h
  cases hj
  exact ⟨_, rfl, rfl, rfl, rfl, rfl⟩

theorem extendSession_allocated {t t' : Table} {master : AesKey} {role : UInt8} {now : Nat}
    {i : Fin maxSessions} (h : extendSession P t master role now = some (i, t')) :
    Allocated t t' i := by
  unfold extendSession at h
  obtain ⟨⟨j, u⟩, halloc, hj⟩ := Option.map_eq_some_iff.mp h
  obtain ⟨sess, rfl, huse, hgen, hseen, hret⟩ := sessionAlloc_allocated halloc
  cases hj
  refine ⟨_, Function.update_idem _ _ _, ?_, ?_, ?_, ?_⟩
  · simpa using huse
  · simpa using hgen
  · simpa using hseen
  · simpa using hret

/-- The slots keep the sessions they hold. -/
def SessionsKept (t t' : Table) : Prop :=
  ∀ i, (t' i).inUse = (t i).inUse ∧ (t' i).keys = (t i).keys ∧
    (t' i).generation = (t i).generation

theorem sessionsKept_refl (t : Table) : SessionsKept t t := fun _ => ⟨rfl, rfl, rfl⟩

theorem sessionsKept_update {t : Table} {i : Fin maxSessions} {sess : SessionEntry}
    (huse : sess.inUse = (t i).inUse)
    (hkeys : ⟨sess.headerEncKey, sess.headerMacKey, sess.returnBlindKey⟩ = (t i).keys)
    (hgen : sess.generation = (t i).generation) :
    SessionsKept t (Function.update t i sess) := by
  intro j
  by_cases hj : j = i
  · subst hj
    rw [Function.update_self]
    exact ⟨huse, hkeys, hgen⟩
  · rw [Function.update_of_ne hj]
    exact ⟨rfl, rfl, rfl⟩

theorem sessionsKept_confirm (t : Table) (f : Found) :
    SessionsKept t (sessionConfirmHintMatch P t f) := by
  unfold sessionConfirmHintMatch
  split
  · exact sessionsKept_update rfl rfl rfl
  · exact sessionsKept_refl t

theorem sessionsKept_check (t : Table) (f : Found) (nonce : SeenNonce) :
    SessionsKept t (checkNonce t f nonce).2 := by
  cases nonce with
  | data nonce =>
    simp only [checkNonce, sessionCheckNonceByIdx]
    split
    · exact sessionsKept_update rfl rfl rfl
    · exact sessionsKept_refl t
  | ret nonce =>
    simp only [checkNonce, sessionCheckReturnNonceByIdx]
    split
    · exact sessionsKept_update rfl rfl rfl
    · exact sessionsKept_refl t

/-! The nonce check on the slot's own session. -/

/-- The nonce cache of a direction. -/
def SessionEntry.seen (sess : SessionEntry) :
    (mode : Mode) → Recent (Bytes mode.nonceLen) replayWindow
  | .data => sess.seenNonces
  | .ret => sess.seenReturnNonces

def SessionEntry.withSeen (sess : SessionEntry) :
    (mode : Mode) → Recent (Bytes mode.nonceLen) replayWindow → SessionEntry
  | .data, seen => { sess with seenNonces := seen }
  | .ret, seen => { sess with seenReturnNonces := seen }

section
variable (sess : SessionEntry) (mode : Mode) (seen : Recent (Bytes mode.nonceLen) replayWindow)

@[simp] theorem SessionEntry.withSeen_inUse : (sess.withSeen mode seen).inUse = sess.inUse := by
  cases mode <;> rfl

@[simp] theorem SessionEntry.withSeen_keys : (sess.withSeen mode seen).keys = sess.keys := by
  cases mode <;> rfl

@[simp] theorem SessionEntry.withSeen_generation :
    (sess.withSeen mode seen).generation = sess.generation := by
  cases mode <;> rfl

@[simp] theorem SessionEntry.seen_withSeen : (sess.withSeen mode seen).seen mode = seen := by
  cases mode <;> rfl

theorem SessionEntry.seen_withSeen_of_ne {mode' : Mode} (h : mode' ≠ mode) :
    (sess.withSeen mode seen).seen mode' = sess.seen mode' := by
  cases mode <;> cases mode' <;> first | rfl | exact absurd rfl h

@[simp] theorem SessionEntry.withSeen_seen : sess.withSeen mode (sess.seen mode) = sess := by
  cases mode <;> rfl

end

theorem checkNonce_same {t : Table} {f : Found} (h : SameSession t f.idx f.generation)
    (mode : Mode) (nonce : Bytes mode.nonceLen) :
    checkNonce t f (.of mode nonce) =
      ((((t f.idx).seen mode).checkAndRecord nonce).1,
        Function.update t f.idx ((t f.idx).withSeen mode
          (((t f.idx).seen mode).checkAndRecord nonce).2)) := by
  cases mode with
  | data =>
    simp only [SeenNonce.of, checkNonce, sessionCheckNonceByIdx, if_pos h]
    rfl
  | ret =>
    simp only [SeenNonce.of, checkNonce, sessionCheckReturnNonceByIdx, if_pos h]
    rfl

theorem checkNonce_other {t : Table} {f : Found} (h : ¬ SameSession t f.idx f.generation)
    (nonce : SeenNonce) : checkNonce t f nonce = (true, t) := by
  cases nonce with
  | data nonce => simp only [checkNonce, sessionCheckNonceByIdx, if_neg h]
  | ret nonce => simp only [checkNonce, sessionCheckReturnNonceByIdx, if_neg h]

/-- The slots keep their nonce caches. -/
def SeenKept (t t' : Table) : Prop := ∀ i mode, (t' i).seen mode = (t i).seen mode

theorem seenKept_refl (t : Table) : SeenKept t t := fun _ _ => rfl

theorem seenKept_update {t : Table} {i : Fin maxSessions} {sess : SessionEntry}
    (hseen : sess.seenNonces = (t i).seenNonces)
    (hret : sess.seenReturnNonces = (t i).seenReturnNonces) :
    SeenKept t (Function.update t i sess) := by
  intro j mode
  by_cases hj : j = i
  · subst hj
    rw [Function.update_self]
    cases mode
    · exact hseen
    · exact hret
  · rw [Function.update_of_ne hj]

theorem seenKept_confirm (t : Table) (f : Found) :
    SeenKept t (sessionConfirmHintMatch P t f) := by
  unfold sessionConfirmHintMatch
  split
  · exact seenKept_update rfl rfl
  · exact seenKept_refl t

/-- A lookup changes time stamps only, and the ticket it hands out is kept. -/
theorem TableState.find_spec (s : TableState) (hint : Hint) (now : Nat) :
    SeenKept s.table (s.find hint now).2.table ∧ s.tickets ⊆ (s.find hint now).2.tickets ∧
      ∀ ticket, (s.find hint now).1 = some ticket → ticket ∈ (s.find hint now).2.tickets := by
  unfold TableState.find
  split
  · rename_i t hfind
    unfold sessionFind at hfind
    split at hfind
    · cases hfind
      exact ⟨seenKept_refl _, List.Subset.refl _, fun ticket h => by cases h⟩
    · cases hfind
  · rename_i f t hfind
    obtain ⟨-, rfl⟩ := sessionFind_eq_some hfind
    refine ⟨seenKept_update rfl rfl, List.subset_append_left _ _, fun ticket h => ?_⟩
    cases h
    exact List.mem_append_right _ (List.mem_singleton.mpr rfl)

/-! Generations count allocations, and tickets point at the session that was found. -/

structure TableState.Ok (s : TableState) : Prop where
  inUse : ∀ i, (s.table i).inUse = true ↔ 0 < s.epoch i
  generation : ∀ i, (s.table i).generation = s.epoch i % 2 ^ 32
  issued : ∀ ticket ∈ s.tickets, ticket.epoch ≤ s.epoch ticket.found.idx ∧ 0 < ticket.epoch ∧
    ticket.found.generation = ticket.epoch % 2 ^ 32
  keys : ∀ ticket ∈ s.tickets, s.epoch ticket.found.idx = ticket.epoch →
    (s.table ticket.found.idx).keys = ticket.found.keys

theorem TableState.ok_initial : TableState.initial.Ok where
  inUse i := by simp [initial, zeroEntry]
  generation i := by simp [initial, zeroEntry]
  issued := by simp [initial]
  keys := by simp [initial]

namespace TableState.Ok
variable {s : TableState} (ok : s.Ok)
include ok

theorem kept {t : Table} (h : SessionsKept s.table t) : Ok { s with table := t } where
  inUse i := by rw [(h i).1]; exact ok.inUse i
  generation i := by rw [(h i).2.2]; exact ok.generation i
  issued := ok.issued
  keys ticket hmem hepoch := by rw [(h _).2.1]; exact ok.keys ticket hmem hepoch

theorem allocated {t : Table} {i : Fin maxSessions} (h : Allocated s.table t i) :
    Ok { s with table := t, epoch := Function.update s.epoch i (s.epoch i + 1) } := by
  obtain ⟨sess, rfl, huse, hgen, -⟩ := h
  constructor
  · intro j
    by_cases hj : j = i
    · subst hj
      simp [huse]
    · simpa [hj] using ok.inUse j
  · intro j
    by_cases hj : j = i
    · subst hj
      simp only [Function.update_self, hgen, ok.generation j]
      omega
    · simpa [hj] using ok.generation j
  · intro ticket hmem
    obtain ⟨hle, hpos, hgen'⟩ := ok.issued ticket hmem
    refine ⟨?_, hpos, hgen'⟩
    by_cases hj : ticket.found.idx = i
    · simp only [hj, Function.update_self]
      rw [hj] at hle
      omega
    · simpa [hj] using hle
  · intro ticket hmem hepoch
    -- a ticket of the slot is older than the new session
    have hj : ticket.found.idx ≠ i := by
      intro hj
      have hle := (ok.issued ticket hmem).1
      simp only [hj, Function.update_self] at hepoch hle
      omega
    simp only [Function.update_of_ne hj] at hepoch ⊢
    exact ok.keys ticket hmem hepoch

theorem find (hint : Hint) (now : Nat) : Ok (s.find hint now).2 := by
  unfold TableState.find
  split
  · rename_i t hfind
    have ht : t = s.table := by
      unfold sessionFind at hfind
      split at hfind
      · exact (Prod.mk.inj hfind).2.symm
      · cases (Prod.mk.inj hfind).1
    subst ht
    exact ok
  · rename_i f t hfind
    obtain ⟨hfound, rfl⟩ := sessionFind_eq_some hfind
    obtain ⟨-, huse, -, hkeys, hgen⟩ := foundAt_eq_some hfound
    have okt := ok.kept (t := Function.update s.table f.idx
      { s.table f.idx with lastActiveMs := now }) (sessionsKept_update rfl rfl rfl)
    refine ⟨okt.inUse, okt.generation, ?_, ?_⟩
    · intro ticket hmem
      rcases List.mem_append.mp hmem with hmem | hmem
      · exact ok.issued ticket hmem
      · obtain rfl := List.mem_singleton.mp hmem
        exact ⟨le_refl _, (ok.inUse f.idx).mp huse, hgen.trans (ok.generation f.idx)⟩
    · intro ticket hmem
      rcases List.mem_append.mp hmem with hmem | hmem
      · exact okt.keys ticket hmem
      · obtain rfl := List.mem_singleton.mp hmem
        intro _
        simp only [Function.update_self]
        exact hkeys.symm

theorem step (op : TableOp) : Ok (tableStep P s op) := by
  cases op with
  | alloc now =>
    simp only [tableStep, TableState.alloc]
    cases halloc : sessionAlloc s.table now with
    | none => exact ok
    | some r => exact ok.allocated (sessionAlloc_allocated halloc)
  | extend master role now =>
    simp only [tableStep, TableState.extend]
    cases hext : extendSession P s.table master role now with
    | none => exact ok
    | some r => exact ok.allocated (extendSession_allocated P hext)
  | find hint now => exact ok.find hint now
  | confirm k =>
    simp only [tableStep]
    cases s.tickets[k]? with
    | none => exact ok
    | some ticket => exact ok.kept (sessionsKept_confirm P s.table ticket.found)
  | check k nonce =>
    simp only [tableStep]
    cases s.tickets[k]? with
    | none => exact ok
    | some ticket => exact ok.kept (sessionsKept_check s.table ticket.found nonce)

theorem run (ops : List TableOp) : Ok (Machine.run (tableStep P) ops s) := by
  induction ops generalizing s with
  | nil => exact ok
  | cons op ops ih => exact ih (ok.step P op)

/-- With fewer than 2^32 allocations of a slot, equal generations are the same session. -/
theorem sameSession_iff {ticket : Ticket} (hmem : ticket ∈ s.tickets)
    (hfew : s.epoch ticket.found.idx < 2 ^ 32) :
    SameSession s.table ticket.found.idx ticket.found.generation ↔
      s.epoch ticket.found.idx = ticket.epoch := by
  obtain ⟨hle, hpos, hgen⟩ := ok.issued ticket hmem
  unfold SameSession
  rw [ok.inUse, ok.generation, hgen]
  omega

end TableState.Ok

/-! Acting on a session by its index and generation. -/

/-- What `handle_data` and `handle_return` do once the nonce is checked. -/
def sendAfterCheck (drop : Bool) (send : Option Delivery) : Option Delivery :=
  if drop then none else send

/-- The operations work on the session that was found, and on nothing else. -/
structure ActsOnFound (t : Table) (f : Found) : Prop where
  session : (t f.idx).inUse = true ∧ (t f.idx).keys = f.keys
  confirm : sessionConfirmHintMatch P t f = Function.update t f.idx
    { t f.idx with
      toHintState := sessionAdvanceHintWindow P (t f.idx).toHintState f.domain f.windowIdx }
  check : ∀ (mode : Mode) (nonce : Bytes mode.nonceLen), checkNonce t f (.of mode nonce) =
    ((((t f.idx).seen mode).checkAndRecord nonce).1,
      Function.update t f.idx ((t f.idx).withSeen mode
        (((t f.idx).seen mode).checkAndRecord nonce).2))

/-- The operations leave the table as it is, and the packet is dropped. -/
structure LeavesTable (t : Table) (f : Found) : Prop where
  confirm : sessionConfirmHintMatch P t f = t
  check : ∀ nonce, checkNonce t f nonce = (true, t)
  dropped : ∀ nonce send, sendAfterCheck (checkNonce t f nonce).1 send = none

/-- After any operations in any order, what carries the index and generation of an earlier
lookup acts on the session found then, or on nothing when the slot was reclaimed since. -/
theorem session_identity (ops : List TableOp) {ticket : Ticket}
    (hissued : ticket ∈ (Machine.run (tableStep P) ops .initial).tickets)
    (hfew : (Machine.run (tableStep P) ops .initial).epoch ticket.found.idx < 2 ^ 32) :
    ((Machine.run (tableStep P) ops .initial).epoch ticket.found.idx = ticket.epoch ∧
        ActsOnFound P (Machine.run (tableStep P) ops .initial).table ticket.found) ∨
      (ticket.epoch < (Machine.run (tableStep P) ops .initial).epoch ticket.found.idx ∧
        LeavesTable P (Machine.run (tableStep P) ops .initial).table ticket.found) := by
  have ok := TableState.ok_initial.run P ops
  have hsame := ok.sameSession_iff hissued hfew
  have hle := (ok.issued ticket hissued).1
  rcases hle.eq_or_lt with hepoch | hlt
  · left
    have hs := hsame.mpr hepoch.symm
    exact ⟨hepoch.symm, ⟨hs.1, ok.keys ticket hissued hepoch.symm⟩, if_pos hs,
      checkNonce_same hs⟩
  · right
    have hs : ¬ SameSession (Machine.run (tableStep P) ops .initial).table ticket.found.idx
        ticket.found.generation := fun h => hlt.ne (hsame.mp h).symm
    refine ⟨hlt, if_neg hs, checkNonce_other hs, fun nonce send => ?_⟩
    rw [checkNonce_other hs]
    rfl

/-- One session, looked up by its first hint. -/
def lookupOps : List TableOp :=
  [.extend (sampleMaster 0) sessionRoleA 0,
    .find (packetDeriveHopHint .sample (packetDeriveHintSeed .sample (sampleMaster 0)) 0) 0]

theorem session_identity_lookup :
    ∃ ticket ∈ (Machine.run (tableStep .sample) lookupOps .initial).tickets,
      ticket.epoch = 1 ∧
        ActsOnFound .sample (Machine.run (tableStep .sample) lookupOps .initial).table
          ticket.found := by
  have hlen : (Machine.run (tableStep .sample) lookupOps .initial).tickets.length = 1 := by
    decide +kernel
  have hepoch : ∀ ticket ∈ (Machine.run (tableStep .sample) lookupOps .initial).tickets,
      ticket.epoch = 1 ∧
        (Machine.run (tableStep .sample) lookupOps .initial).epoch ticket.found.idx = 1 := by
    decide +kernel
  obtain ⟨ticket, hmem⟩ := List.exists_mem_of_length_pos (by rw [hlen]; exact Nat.one_pos)
  obtain ⟨hone, hidx⟩ := hepoch ticket hmem
  refine ⟨ticket, hmem, hone, ?_⟩
  rcases session_identity .sample lookupOps hmem (by rw [hidx]; decide) with ⟨-, h⟩ | ⟨hlt, -⟩
  · exact h
  · rw [hone, hidx] at hlt
    exact absurd hlt (lt_irrefl 1)

end AnonSecNet.MixNode
