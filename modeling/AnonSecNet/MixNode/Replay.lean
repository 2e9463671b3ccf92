import AnonSecNet.MixNode.Operations

/-! Handler threads for any packets, with what was recorded in each session and what was
sent on: the nonce caches catch a replay exactly while its nonce is among the recent ones. -/
namespace AnonSecNet.MixNode
open Octets
variable (P : Primitives) (hopDecoy : Bool)

/-- The MAC check, the nonce of a packet that passes, and what is sent if the nonce is new:
nothing when a decoy ends here or the destination is not allowed. -/
def peelWire (mode : Mode) (wire pad : WirePacket) (keys : SessionKeys) :
    Option (Bytes mode.nonceLen × Option Delivery) :=
  match mode with
  | .data =>
    (packetSphinxPeel P wire keys.headerEncKey keys.headerMacKey pad).map fun (hop, out) =>
      (hop.nonce,
        if hopDecoy ∧ hop.hopFlag = hopDropMarker then none
        else if isAllowedNextHop localhostBytes hop.nextPort then
          some ⟨localhostBytes, hop.nextPort, false, out⟩
        else none)
  | .ret =>
    (packetPeelReturnHeader P (returnHeaderOf wire) keys.headerEncKey keys.headerMacKey
      (returnHeaderOf pad)).map fun (next, shifted) =>
        (next.nonce,
          if isAllowedNextHop next.nextIp next.nextPort then
            some ⟨next.nextIp, next.nextPort, decide (isFinal next.nextPort),
              returnOut P keys wire shifted⟩
          else none)

/-- A handler thread whose packet passed the MAC check. -/
structure Worker where
  mode : Mode
  wire : WirePacket
  ticket : Ticket
  nonce : Bytes mode.nonceLen
  send : Option Delivery
  stage : Stage

/-- A packet sent on, with the number of nonces of its direction recorded before its own. -/
structure Sent where
  worker : Worker
  after : Nat

/-- What was recorded in a session, in each direction, newest first. -/
abbrev History : Type := (mode : Mode) → List (Bytes mode.nonceLen)

def History.record (h : History) (mode : Mode) (nonce : Bytes mode.nonceLen) : History :=
  Function.update h mode (nonce :: h mode)

/-- `recorded` and `sent` list, newest first, what happened in a slot since it was last
allocated. -/
structure Serving extends TableState where
  workers : List Worker
  recorded : Fin maxSessions → History
  sent : Fin maxSessions → List Sent

def Serving.initial : Serving := ⟨.initial, [], fun _ _ => [], fun _ => []⟩

inductive ServeAct where
  | extend (master : AesKey) (role : UInt8) (now : Nat)
  | receive (mode : Mode) (wire pad : WirePacket) (now : Nat)
  | confirm (k : Nat)
  | check (k : Nat)

def serveReceive (s : Serving) (mode : Mode) (wire pad : WirePacket) (now : Nat) : Serving :=
  match s.find (wireHint mode wire) now with
  | (none, ts) => { s with toTableState := ts }
  | (some ticket, ts) =>
    match peelWire P hopDecoy mode wire pad ticket.found.keys with
    | none => { s with toTableState := ts }
    | some (nonce, send) =>
      { s with
        toTableState := ts
        workers := s.workers ++ [⟨mode, wire, ticket, nonce, send, .verified⟩] }

/-- The nonce check, and sending on. -/
def serveCheck (s : Serving) (k : Nat) (w : Worker) : Serving :=
  let (drop, ts) := s.check w.ticket (.of w.mode w.nonce)
  let checked : Serving :=
    { s with toTableState := ts, workers := s.workers.set k { w with stage := .finished } }
  if drop then checked
  else
    let i := w.ticket.found.idx
    { checked with
      recorded := Function.update s.recorded i ((s.recorded i).record w.mode w.nonce)
      sent :=
        if (sendAfterCheck drop w.send).isSome then
          Function.update s.sent i (⟨w, (s.recorded i w.mode).length⟩ :: s.sent i)
        else s.sent }

def serveStep (s : Serving) : ServeAct → Serving
  | .extend master role now =>
    match s.extend P master role now with
    | none => s
    | some (i, ts) =>
      { s with
        toTableState := ts
        recorded := Function.update s.recorded i fun _ => []
        sent := Function.update s.sent i [] }
  | .receive mode wire pad now => serveReceive P hopDecoy s mode wire pad now
  | .confirm k =>
    match s.workers[k]? with
    | some w =>
      if w.stage = .verified then
        { s with
          toTableState := s.confirm P w.ticket
          workers := s.workers.set k { w with stage := .confirmed } }
      else s
    | none => s
  | .check k =>
    match s.workers[k]? with
    | some w => if w.stage = .confirmed then serveCheck s k w else s
    | none => s

theorem serveCheck_dropped {s : Serving} {k : Nat} {w : Worker}
    (h : checkNonce s.table w.ticket.found (.of w.mode w.nonce) = (true, s.table)) :
    serveCheck s k w = { s with workers := s.workers.set k { w with stage := .finished } } := by
  simp only [serveCheck, TableState.check, h, ↓reduceIte]

theorem serveCheck_recorded {s : Serving} {k : Nat} {w : Worker} {t : Table}
    (h : checkNonce s.table w.ticket.found (.of w.mode w.nonce) = (false, t)) :
    serveCheck s k w =
      { s with
        table := t
        workers := s.workers.set k { w with stage := .finished }
        recorded := Function.update s.recorded w.ticket.found.idx
          ((s.recorded w.ticket.found.idx).record w.mode w.nonce)
        sent :=
          if w.send.isSome then
            Function.update s.sent w.ticket.found.idx
              (⟨w, (s.recorded w.ticket.found.idx w.mode).length⟩ :: s.sent w.ticket.found.idx)
          else s.sent } := by
  simp only [serveCheck, TableState.check, h, sendAfterCheck, Bool.false_eq_true, ↓reduceIte]

/-! A thread that runs its steps without interruption is the handler of the source. -/

/-- `handle_data` or `handle_return`. -/
def handleWire (mode : Mode) (t : Table) (wire : WirePacket) (now : Nat) (pad : WirePacket) :
    Option Delivery × Table :=
  match mode with
  | .data =>
    let (out, t) := handleData P hopDecoy t wire now pad
    (out.map fun (port, fwd) => ⟨localhostBytes, port, false, fwd⟩, t)
  | .ret => handleReturn P t wire now (returnHeaderOf pad)

theorem handleWire_eq (mode : Mode) (t : Table) (wire : WirePacket) (now : Nat)
    (pad : WirePacket) :
    handleWire P hopDecoy mode t wire now pad =
      match sessionFind t (wireHint mode wire) now with
      | (none, t) => (none, t)
      | (some f, t) =>
        match peelWire P hopDecoy mode wire pad f.keys with
        | none => (none, t)
        | some (nonce, send) =>
          let t := sessionConfirmHintMatch P t f
          (sendAfterCheck (checkNonce t f (.of mode nonce)).1 send,
            (checkNonce t f (.of mode nonce)).2) := by
  cases mode with
  | data =>
    simp only [handleWire, handleData, wireHint]
    rcases hfind : sessionFind t (outerHint wire) now with ⟨_ | f, t'⟩
    · rfl
    · simp only [peelWire]
      cases packetSphinxPeel P wire f.keys.headerEncKey f.keys.headerMacKey pad with
      | none => rfl
      | some out =>
        simp only [Option.map_some, checkNonce, SeenNonce.of, sendAfterCheck]
        split <;> rename_i hdrop
        · simp only [hdrop, ↓reduceIte, Option.map_none]
        · simp only [hdrop, Bool.false_eq_true, ↓reduceIte]
          split
          · rfl
          · split <;> rfl
  | ret =>
    simp only [handleWire, handleReturn, wireHint]
    rcases hfind : sessionFind t (returnOuterHint (returnHeaderOf wire)) now with ⟨_ | f, t'⟩
    · rfl
    · simp only [peelWire]
      cases packetPeelReturnHeader P (returnHeaderOf wire) f.keys.headerEncKey
          f.keys.headerMacKey (returnHeaderOf pad) with
      | none => rfl
      | some out =>
        simp only [Option.map_some, checkNonce, SeenNonce.of, sendAfterCheck]
        split <;> rename_i hdrop
        · simp only [hdrop, ↓reduceIte]
        · simp only [hdrop, Bool.false_eq_true, ↓reduceIte]
          split <;> rfl

/-- The packet sent is the last one in the log of its session. -/
def LogsDelivery (s s' : Serving) (wire : WirePacket) : Option Delivery → Prop
  | none => s'.sent = s.sent
  | some d => ∃ i e, s'.sent = Function.update s.sent i (e :: s.sent i) ∧
      e.worker.wire = wire ∧ e.worker.send = some d

theorem serveCheck_delivers (s : Serving) (k : Nat) (w : Worker) :
    (serveCheck s k w).table = (checkNonce s.table w.ticket.found (.of w.mode w.nonce)).2 ∧
      LogsDelivery s (serveCheck s k w) w.wire
        (sendAfterCheck (checkNonce s.table w.ticket.found (.of w.mode w.nonce)).1 w.send) := by
  rcases hcheck : checkNonce s.table w.ticket.found (.of w.mode w.nonce) with ⟨_ | _, t⟩
  · rw [serveCheck_recorded hcheck]
    refine ⟨rfl, ?_⟩
    cases hsend : w.send with
    | none => rfl
    | some d => exact ⟨_, _, rfl, rfl, hsend⟩
  · simp only [serveCheck, TableState.check, hcheck, ↓reduceIte, sendAfterCheck]
    exact ⟨trivial, rfl⟩

theorem handler_run (s : Serving) (mode : Mode) (wire pad : WirePacket) (now : Nat) {s' : Serving}
    (hs' : s' = Machine.run (serveStep P hopDecoy)
      [.receive mode wire pad now, .confirm s.workers.length, .check s.workers.length] s) :
    s'.table = (handleWire P hopDecoy mode s.table wire now pad).2 ∧
      LogsDelivery s s' wire (handleWire P hopDecoy mode s.table wire now pad).1 := by
  subst hs'
  have hnone : s.workers[s.workers.length]? = none := List.getElem?_eq_none le_rfl
  have hsome : ∀ w, (s.workers ++ [w])[s.workers.length]? = some w := by simp
  rw [handleWire_eq]
  simp only [Machine.run, serveStep, serveReceive, TableState.find]
  rcases hfind : sessionFind s.table (wireHint mode wire) now with ⟨_ | f, t⟩
  · simp only [hnone]
    exact ⟨trivial, rfl⟩
  · dsimp only
    rcases hpeel : peelWire P hopDecoy mode wire pad f.keys with _ | ⟨nonce, send⟩
    · simp only [hnone]
      exact ⟨trivial, rfl⟩
    · simp only [hsome, TableState.confirm, ↓reduceIte, List.getElem?_set_self',
        Option.map_eq_map, Option.map_some, Function.const]
      exact serveCheck_delivers _ _ _

/-! What every run keeps. -/

/-- The nonce of a packet does not depend on the random filling. -/
theorem peelWire_nonce {mode : Mode} {wire pad pad' : WirePacket} {keys : SessionKeys}
    {nonce nonce' : Bytes mode.nonceLen} {send send' : Option Delivery}
    (h : peelWire P hopDecoy mode wire pad keys = some (nonce, send))
    (h' : peelWire P hopDecoy mode wire pad' keys = some (nonce', send')) : nonce = nonce' := by
  cases mode with
  | data =>
    simp only [peelWire, packetSphinxPeel] at h h'
    split at h
    · cases h
    · rename_i hmac
      rw [if_neg hmac] at h'
      cases h
      cases h'
      rfl
  | ret =>
    simp only [peelWire, packetPeelReturnHeader] at h h'
    split at h
    · cases h
    · rename_i hmac
      rw [if_neg hmac] at h'
      cases h
      cases h'
      rfl

def Worker.Verified (w : Worker) : Prop :=
  ∃ pad, peelWire P hopDecoy w.mode w.wire pad w.ticket.found.keys = some (w.nonce, w.send)

@[simp] theorem History.record_self (h : History) (mode : Mode) (nonce : Bytes mode.nonceLen) :
    h.record mode nonce mode = nonce :: h mode := Function.update_self _ _ _

@[simp] theorem History.record_of_ne (h : History) {mode mode' : Mode} (hne : mode' ≠ mode)
    (nonce : Bytes mode.nonceLen) : h.record mode nonce mode' = h mode' :=
  Function.update_of_ne hne _ _

/-- What holds of every history, and of one of them with the nonce that it grows by, holds of
every history afterwards. -/
theorem forall_recorded {Q : Fin maxSessions → (mode : Mode) → List (Bytes mode.nonceLen) → Prop}
    {recorded : Fin maxSessions → History} (h : ∀ j mode, Q j mode (recorded j mode))
    {i : Fin maxSessions} {mode : Mode} {nonce : Bytes mode.nonceLen}
    (hnew : Q i mode (nonce :: recorded i mode)) (j : Fin maxSessions) (mode' : Mode) :
    Q j mode' (Function.update recorded i ((recorded i).record mode nonce) j mode') := by
  by_cases hj : j = i
  · subst hj
    rw [Function.update_self]
    by_cases hm : mode' = mode
    · subst hm
      rwa [History.record_self]
    · rw [History.record_of_ne _ hm]
      exact h j mode'
  · rw [Function.update_of_ne hj]
    exact h j mode'

structure ServingOk (s : Serving) : Prop where
  table : s.toTableState.Ok
  rings : ∀ i mode, (s.table i).seen mode = .ofHistory (s.recorded i mode)
  spaced : ∀ i mode, Recent.Spaced replayWindow (s.recorded i mode)
  workers : ∀ w ∈ s.workers, w.ticket ∈ s.tickets ∧ w.Verified P hopDecoy
  sent : ∀ i, ∀ e ∈ s.sent i, e.worker.ticket ∈ s.tickets ∧ e.worker.ticket.found.idx = i ∧
    e.worker.Verified P hopDecoy ∧
    Recent.PushedAfter (s.recorded i e.worker.mode) e.worker.nonce e.after
  order : ∀ i, (s.sent i).Pairwise fun later earlier =>
    earlier.worker.mode = later.worker.mode → earlier.after < later.after

theorem servingOk_initial : ServingOk P hopDecoy .initial where
  table := TableState.ok_initial
  rings i mode := by cases mode <;> rfl
  spaced i mode := Recent.Spaced.nil replayWindow
  workers := by simp [Serving.initial]
  sent := by simp [Serving.initial]
  order := by simp [Serving.initial]

namespace ServingOk
variable {P hopDecoy} {s : Serving} (ok : ServingOk P hopDecoy s)
include ok

theorem mem_set {k : Nat} {w : Worker} (hk : s.workers[k]? = some w) (stage : Stage) :
    ∀ v ∈ s.workers.set k { w with stage := stage }, v.ticket ∈ s.tickets ∧
      v.Verified P hopDecoy := by
  intro v hv
  rcases List.mem_or_eq_of_mem_set hv with hv | rfl
  · exact ok.workers v hv
  · exact ok.workers w (List.mem_of_getElem? hk)

theorem extend {master : AesKey} {role : UInt8} {now : Nat} {i : Fin maxSessions}
    {ts : TableState} (hext : s.extend P master role now = some (i, ts)) :
    ServingOk P hopDecoy { s with
      toTableState := ts
      recorded := Function.update s.recorded i fun _ => []
      sent := Function.update s.sent i [] } := by
  obtain ⟨⟨j, t⟩, hsess, hj⟩ := Option.map_eq_some_iff.mp hext
  cases hj
  have halloc := extendSession_allocated P hsess
  have oktable := ok.table.allocated halloc
  obtain ⟨sess, rfl, -, -, hseen, hret⟩ := halloc
  refine ⟨oktable, ?_, ?_, ok.workers, ?_, ?_⟩
  · intro j mode
    by_cases hj : j = i
    · subst hj
      simp only [Function.update_self]
      cases mode
      · exact hseen
      · exact hret
    · simpa only [Function.update_of_ne hj] using ok.rings j mode
  · intro j mode
    by_cases hj : j = i
    · subst hj
      simpa only [Function.update_self] using Recent.Spaced.nil replayWindow
    · simpa only [Function.update_of_ne hj] using ok.spaced j mode
  · intro j e he
    by_cases hj : j = i
    · subst hj
      simp at he
    · simp only [Function.update_of_ne hj] at he ⊢
      exact ok.sent j e he
  · intro j
    by_cases hj : j = i
    · subst hj
      simp
    · simpa only [Function.update_of_ne hj] using ok.order j

theorem receive (mode : Mode) (wire pad : WirePacket) (now : Nat) :
    ServingOk P hopDecoy (serveReceive P hopDecoy s mode wire pad now) := by
  obtain ⟨hseen, htickets, hnew⟩ := s.find_spec (wireHint mode wire) now
  have hrings : ∀ i mode', ((s.find (wireHint mode wire) now).2.table i).seen mode'
      = .ofHistory (s.recorded i mode') := fun i mode' => (hseen i mode').trans (ok.rings i mode')
  have htable := ok.table.find (wireHint mode wire) now
  have hkept : ServingOk P hopDecoy
      { s with toTableState := (s.find (wireHint mode wire) now).2 } :=
    ⟨htable, hrings, ok.spaced, fun w hw => ⟨htickets (ok.workers w hw).1, (ok.workers w hw).2⟩,
      fun i e he => ⟨htickets (ok.sent i e he).1, (ok.sent i e he).2⟩, ok.order⟩
  unfold serveReceive
  split
  · rename_i ts hfind
    rw [hfind] at hkept
    exact hkept
  · rename_i ticket ts hfind
    rw [hfind] at hkept hnew
    split
    · exact hkept
    · rename_i nonce send hpeel
      refine ⟨hkept.table, hkept.rings, hkept.spaced, ?_, hkept.sent, hkept.order⟩
      intro w hw
      rcases List.mem_append.mp hw with hw | hw
      · exact hkept.workers w hw
      · obtain rfl := List.mem_singleton.mp hw
        exact ⟨hnew ticket rfl, pad, hpeel⟩

theorem confirm {k : Nat} {w : Worker} (hk : s.workers[k]? = some w) :
    ServingOk P hopDecoy { s with
      toTableState := s.confirm P w.ticket
      workers := s.workers.set k { w with stage := .confirmed } } where
  table := ok.table.kept (sessionsKept_confirm P s.table w.ticket.found)
  rings i mode := (seenKept_confirm P s.table w.ticket.found i mode).trans (ok.rings i mode)
  spaced := ok.spaced
  workers := ok.mem_set hk .confirmed
  sent := ok.sent
  order := ok.order

/-- A check of the session in the slot reads and writes the history of its direction. -/
theorem check_same {w : Worker}
    (h : SameSession s.table w.ticket.found.idx w.ticket.found.generation) :
    checkNonce s.table w.ticket.found (.of w.mode w.nonce) =
      if w.nonce ∈ (s.recorded w.ticket.found.idx w.mode).take replayWindow then (true, s.table)
      else (false, Function.update s.table w.ticket.found.idx
        ((s.table w.ticket.found.idx).withSeen w.mode
          (.ofHistory (w.nonce :: s.recorded w.ticket.found.idx w.mode)))) := by
  rw [checkNonce_same h, ok.rings, Recent.checkAndRecord_ofHistory]
  split
  · rw [← ok.rings, SessionEntry.withSeen_seen, Function.update_eq_self]
  · rfl

/-- Recording a nonce that the ring does not hold. -/
theorem record {k : Nat} {w : Worker} (hk : s.workers[k]? = some w)
    (hnew : w.nonce ∉ (s.recorded w.ticket.found.idx w.mode).take replayWindow) :
    ServingOk P hopDecoy { s with
      table := Function.update s.table w.ticket.found.idx
        ((s.table w.ticket.found.idx).withSeen w.mode
          (.ofHistory (w.nonce :: s.recorded w.ticket.found.idx w.mode)))
      workers := s.workers.set k { w with stage := .finished }
      recorded := Function.update s.recorded w.ticket.found.idx
        ((s.recorded w.ticket.found.idx).record w.mode w.nonce)
      sent :=
        if w.send.isSome then
          Function.update s.sent w.ticket.found.idx
            (⟨w, (s.recorded w.ticket.found.idx w.mode).length⟩ :: s.sent w.ticket.found.idx)
        else s.sent } := by
  obtain ⟨hmem, hverified⟩ := ok.workers w (List.mem_of_getElem? hk)
  generalize hi : w.ticket.found.idx = i at hnew ⊢
  -- what was recorded in a slot stays recorded after the same number of others
  have hgrow : ∀ (j : Fin maxSessions) (mode : Mode) (x : Bytes mode.nonceLen) (after : Nat),
      Recent.PushedAfter (s.recorded j mode) x after → Recent.PushedAfter
        (Function.update s.recorded i ((s.recorded i).record w.mode w.nonce) j mode) x after :=
    forall_recorded (Q := fun j mode h => ∀ x after, Recent.PushedAfter (s.recorded j mode) x after →
      Recent.PushedAfter h x after) (fun _ _ _ _ hrec => hrec) fun _ _ hrec => hrec.cons w.nonce
  have hfirst : Recent.PushedAfter
      (Function.update s.recorded i ((s.recorded i).record w.mode w.nonce) i w.mode) w.nonce
      (s.recorded i w.mode).length := by
    rw [Function.update_self, History.record_self]
    exact ⟨[], _, rfl, rfl⟩
  constructor
  · exact ok.table.kept (sessionsKept_update (SessionEntry.withSeen_inUse _ _ _)
      (SessionEntry.withSeen_keys _ _ _) (SessionEntry.withSeen_generation _ _ _))
  · intro j mode
    by_cases hj : j = i
    · subst hj
      simp only [Function.update_self]
      by_cases hm : mode = w.mode
      · subst hm
        rw [SessionEntry.seen_withSeen, History.record_self]
      · rw [SessionEntry.seen_withSeen_of_ne _ _ _ hm, History.record_of_ne _ hm]
        exact ok.rings j mode
    · simpa only [Function.update_of_ne hj] using ok.rings j mode
  · exact forall_recorded (Q := fun _ _ h => Recent.Spaced replayWindow h) ok.spaced
      ((ok.spaced i w.mode).cons hnew)
  · exact ok.mem_set hk .finished
  · intro j e he
    have hold : e ∈ s.sent j → e.worker.ticket ∈ s.tickets ∧ e.worker.ticket.found.idx = j ∧
        e.worker.Verified P hopDecoy ∧ Recent.PushedAfter
          (Function.update s.recorded i ((s.recorded i).record w.mode w.nonce) j e.worker.mode)
          e.worker.nonce e.after := by
      intro hmem
      obtain ⟨hticket, hidx, hver, hrec⟩ := ok.sent j e hmem
      exact ⟨hticket, hidx, hver, hgrow j _ _ _ hrec⟩
    split at he
    · by_cases hj : j = i
      · subst hj
        simp only [Function.update_self] at he
        rcases List.mem_cons.mp he with rfl | he
        · exact ⟨hmem, hi, hverified, hfirst⟩
        · exact hold he
      · simp only [Function.update_of_ne hj] at he
        exact hold he
    · exact hold he
  · intro j
    split
    · by_cases hj : j = i
      · subst hj
        simp only [Function.update_self, List.pairwise_cons]
        refine ⟨fun e he hmode => ?_, ok.order j⟩
        obtain ⟨-, -, -, hrec⟩ := ok.sent j e he
        rw [← hmode]
        exact hrec.lt
      · simpa only [Function.update_of_ne hj] using ok.order j
    · exact ok.order j

theorem check {k : Nat} {w : Worker} (hk : s.workers[k]? = some w) :
    ServingOk P hopDecoy (serveCheck s k w) := by
  have hset := ok.mem_set hk .finished
  obtain ⟨hmem, hverified⟩ := ok.workers w (List.mem_of_getElem? hk)
  have hdropped : ServingOk P hopDecoy
      { s with workers := s.workers.set k { w with stage := .finished } } :=
    ⟨ok.table, ok.rings, ok.spaced, hset, ok.sent, ok.order⟩
  by_cases h : SameSession s.table w.ticket.found.idx w.ticket.found.generation
  · have hcheck := ok.check_same h
    split at hcheck
    · rw [serveCheck_dropped hcheck]
      exact hdropped
    · rename_i hnew
      rw [serveCheck_recorded hcheck]
      exact ok.record hk hnew
  · rw [serveCheck_dropped (checkNonce_other h _)]
    exact hdropped

theorem step (a : ServeAct) : ServingOk P hopDecoy (serveStep P hopDecoy s a) := by
  cases a with
  | extend master role now =>
    simp only [serveStep]
    split
    · exact ok
    · rename_i i ts hext
      exact ok.extend hext
  | receive mode wire pad now => exact ok.receive mode wire pad now
  | confirm k =>
    simp only [serveStep]
    split
    · rename_i w hk
      split
      · exact ok.confirm hk
      · exact ok
    · exact ok
  | check k =>
    simp only [serveStep]
    split
    · rename_i w hk
      split
      · exact ok.check hk
      · exact ok
    · exact ok

theorem run (acts : List ServeAct) :
    ServingOk P hopDecoy (Machine.run (serveStep P hopDecoy) acts s) := by
  induction acts generalizing s with
  | nil => exact ok
  | cons a acts ih => exact ih (ok.step a)

/-- Copies of one packet in one session carry one nonce. -/
theorem copies_nonce {i : Fin maxSessions} {e e' : Sent} (he : e ∈ s.sent i) (he' : e' ∈ s.sent i)
    (hsession : e.worker.ticket.epoch = s.epoch i ∧ e'.worker.ticket.epoch = s.epoch i)
    (hmode : e.worker.mode = e'.worker.mode) (hwire : e.worker.wire = e'.worker.wire) :
    SeenNonce.of e.worker.mode e.worker.nonce = .of e'.worker.mode e'.worker.nonce := by
  obtain ⟨hticket, hidx, ⟨pad, hpeel⟩, -⟩ := ok.sent i e he
  obtain ⟨hticket', hidx', ⟨pad', hpeel'⟩, -⟩ := ok.sent i e' he'
  -- both copied out the keys of the session that the slot holds now
  have hkeys := ok.table.keys _ hticket (by rw [hidx, hsession.1])
  have hkeys' := ok.table.keys _ hticket' (by rw [hidx', hsession.2])
  rw [hidx] at hkeys
  rw [hidx'] at hkeys'
  rw [← hkeys] at hpeel
  rw [← hkeys'] at hpeel'
  obtain ⟨⟨mode, wire, ticket, nonce, send, stage⟩, after⟩ := e
  obtain ⟨⟨mode', wire', ticket', nonce', send', stage'⟩, after'⟩ := e'
  dsimp only at hmode hwire hpeel hpeel'
  subst hmode
  subst hwire
  rw [peelWire_nonce P hopDecoy hpeel hpeel']

end ServingOk

/-- Exact replay detection in every session, in both directions. -/
structure ReplayExact (s : Serving) : Prop where
  /-- The ring holds the last nonces recorded, pairwise distinct. -/
  ring : ∀ i mode, ((s.table i).seen mode).count = min (s.recorded i mode).length replayWindow ∧
    ((s.recorded i mode).take replayWindow).Nodup ∧
    ∀ nonce, ((s.table i).seen mode).Holds nonce ↔ nonce ∈ (s.recorded i mode).take replayWindow
  /-- A packet that passed its MAC check is dropped exactly when its nonce is among them. -/
  dropped_iff : ∀ w ∈ s.workers,
    SameSession s.table w.ticket.found.idx w.ticket.found.generation →
      ((checkNonce s.table w.ticket.found (.of w.mode w.nonce)).1 = true ↔
        w.nonce ∈ (s.recorded w.ticket.found.idx w.mode).take replayWindow)
  /-- Two copies of a packet that were both sent on have `replayWindow` other nonces between. -/
  copies_apart : ∀ i, (s.sent i).Pairwise fun later earlier =>
    earlier.worker.ticket.epoch = s.epoch i → later.worker.ticket.epoch = s.epoch i →
    earlier.worker.mode = later.worker.mode → earlier.worker.wire = later.worker.wire →
      Recent.Apart replayWindow (s.recorded i later.worker.mode) later.worker.nonce
        earlier.after later.after
  /-- A thread that nothing comes between does what the handler of the source does. -/
  handler : ∀ mode wire pad now s', s' = Machine.run (serveStep P hopDecoy)
      [.receive mode wire pad now, .confirm s.workers.length, .check s.workers.length] s →
    s'.table = (handleWire P hopDecoy mode s.table wire now pad).2 ∧
      LogsDelivery s s' wire (handleWire P hopDecoy mode s.table wire now pad).1

/-- Whatever packets arrive and however the handler threads interleave. -/
theorem replay_exact (acts : List ServeAct) :
    ReplayExact P hopDecoy (Machine.run (serveStep P hopDecoy) acts .initial) := by
  have ok := (servingOk_initial P hopDecoy).run acts
  generalize Machine.run (serveStep P hopDecoy) acts Serving.initial = s at ok
  constructor
  · intro i mode
    rw [ok.rings i mode]
    exact ⟨Recent.count_ofHistory _, (ok.spaced i mode).nodup_take _ le_rfl,
      Recent.holds_ofHistory _⟩
  · intro w _ hsame
    rw [ok.check_same hsame]
    split
    · rename_i hmem
      exact iff_of_true rfl hmem
    · rename_i hmem
      exact iff_of_false Bool.false_ne_true hmem
  · intro i
    refine (ok.order i).imp_of_mem fun {later earlier} hlater hearlier horder => ?_
    intro hepoch hepoch' hmode hwire
    have hnonce := ok.copies_nonce hearlier hlater ⟨hepoch, hepoch'⟩ hmode hwire
    have hfirst := (ok.sent i earlier hearlier).2.2.2
    have hsecond := (ok.sent i later hlater).2.2.2
    have hlt := horder hmode
    obtain ⟨⟨mode, wire, ticket, nonce, send, stage⟩, after⟩ := earlier
    obtain ⟨⟨mode', wire', ticket', nonce', send', stage'⟩, after'⟩ := later
    dsimp only at *
    subst hmode
    rw [SeenNonce.of_inj] at hnonce
    subst hnonce
    exact (ok.spaced i mode).apart hfirst hsecond hlt
  · intro mode wire pad now s' hs'
    exact handler_run P hopDecoy s mode wire pad now hs'

end AnonSecNet.MixNode
