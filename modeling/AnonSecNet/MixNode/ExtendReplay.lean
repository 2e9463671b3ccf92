import AnonSecNet.MixNode.Derivation
import AnonSecNet.MixNode.Extend

/-! The node with its key pair: sessions come from request frames, and a frame that is sent
again sets up a second session of the same master. -/
namespace AnonSecNet.MixNode
open Octets
variable (K : KeyExchange) (P : Primitives) (myPort : UInt16) (hopDecoy : Bool)

/-- A session that was set up: what its master was derived from, and its slot. -/
structure SetUp where
  nodePub : PubKey
  clientPub : PubKey
  role : UInt8
  master : AesKey
  idx : Fin maxSessions
  epoch : Nat
deriving DecidableEq

def SetUp.transcript (x : SetUp) : PubKey × PubKey × UInt8 := (x.nodePub, x.clientPub, x.role)

/-- `setUps` lists all sessions of the run, newest first. -/
structure KeyedNode extends Serving where
  nodeKp : K.Secret
  setUps : List SetUp

def KeyedNode.initial (nodeKp : K.Secret) : KeyedNode K := ⟨.initial, nodeKp, []⟩

inductive KeyedAct where
  | frame (frame : WirePacket) (now : Nat)
  | rotate (nodeKp : K.Secret)
  | receive (mode : Mode) (wire pad : WirePacket) (now : Nat)
  | confirm (k : Nat)
  | check (k : Nat)

def keyedStep (s : KeyedNode K) : KeyedAct K → KeyedNode K
  | .frame frame now =>
    match handleExtend K P s.nodeKp myPort s.table frame now with
    | none => s
    | some (req, master, i, _) =>
      { s with
        toServing := serveStep P hopDecoy s.toServing (.extend master req.role now)
        setUps := ⟨K.pubkey s.nodeKp, req.clientPub, req.role, master, i, s.epoch i + 1⟩
          :: s.setUps }
  | .rotate nodeKp => { s with nodeKp := nodeKp }
  | .receive mode wire pad now =>
    { s with toServing := serveStep P hopDecoy s.toServing (.receive mode wire pad now) }
  | .confirm k => { s with toServing := serveStep P hopDecoy s.toServing (.confirm k) }
  | .check k => { s with toServing := serveStep P hopDecoy s.toServing (.check k) }

/-! What is unambiguous. -/

def Worker.hint (w : Worker) : Hint := wireHint w.mode w.wire

/-- No two live sessions hold one hint in a window. -/
def HintsUnique (t : Table) : Prop :=
  ∀ i j, (t i).inUse = true → (t j).inUse = true → ∀ d w e v,
    (t i).hintWindow d w = (t j).hintWindow e v → i = j

/-- Packets with one hint, copies above all, were matched in one session and passed its MAC
check there, so that one nonce cache sees them all. -/
def OneSession (workers : List Worker) : Prop :=
  ∀ w ∈ workers, ∀ w' ∈ workers, w.hint = w'.hint →
    w.ticket.found.idx = w'.ticket.found.idx ∧ w.ticket.epoch = w'.ticket.epoch

variable {K} in
/-- The frame sets up a session that an earlier one set up already: the same client key and
role, and the node's key has not been rotated. -/
def Replays (s : KeyedNode K) (frame : WirePacket) (now : Nat) : Prop :=
  ∃ req, recvExtendRequest frame = some req ∧ (sessionAlloc s.table now).isSome ∧
    ∃ x ∈ s.setUps, x.transcript = (K.pubkey s.nodeKp, req.clientPub, req.role)

def NoReplay (s : KeyedNode K) : KeyedAct K → Prop
  | .frame frame now => ¬ Replays s frame now
  | _ => True

/-- HKDF and HMAC do not collide on what the sessions are derived from. -/
structure DerivationsDistinct (setUps : List SetUp) : Prop where
  masters : ∀ x ∈ setUps, ∀ y ∈ setUps, x.master = y.master → x.transcript = y.transcript
  hints : HintsDistinct P fun m => ∃ x ∈ setUps, x.master = m

/-! What serving a packet leaves alone. -/

theorem find_cases (s : TableState) (hint : Hint) (now : Nat) :
    s.find hint now = (none, s) ∨
      ∃ f, foundAt s.table hint f.idx = some f ∧
        s.find hint now = (some ⟨f, s.epoch f.idx⟩, { s with
          table := Function.update s.table f.idx { s.table f.idx with lastActiveMs := now }
          tickets := s.tickets ++ [⟨f, s.epoch f.idx⟩] }) := by
  unfold TableState.find
  rcases hfind : sessionFind s.table hint now with ⟨_ | f, t⟩
  · left
    unfold sessionFind at hfind
    split at hfind
    · cases hfind
      rfl
    · cases hfind
  · right
    obtain ⟨hfound, rfl⟩ := sessionFind_eq_some hfind
    exact ⟨f, hfound, rfl⟩

/-- Slots stay in use with the sessions they hold, and a worker that is new was led to its
session by its hint. -/
structure Served (s s' : Serving) : Prop where
  inUse : ∀ i, (s'.table i).inUse = (s.table i).inUse
  epoch : s'.epoch = s.epoch
  workers : ∀ w' ∈ s'.workers, (∃ w ∈ s.workers, w'.hint = w.hint ∧ w'.ticket = w.ticket) ∨
    ∃ f, foundAt s.table w'.hint f.idx = some f ∧ w'.ticket = ⟨f, s.epoch f.idx⟩

theorem served_refl (s : Serving) : Served s s :=
  ⟨fun _ => rfl, rfl, fun w hw => .inl ⟨w, hw, rfl, rfl⟩⟩

theorem served_set {s : Serving} {t : Table} (ht : SessionsKept s.table t) {k : Nat}
    {w : Worker} (hk : s.workers[k]? = some w) (stage : Stage) {s' : Serving}
    (htable : s'.table = t) (hepoch : s'.epoch = s.epoch)
    (hworkers : s'.workers = s.workers.set k { w with stage := stage }) : Served s s' := by
  refine ⟨fun i => ?_, hepoch, fun w' hw' => ?_⟩
  · rw [htable, (ht i).1]
  · rw [hworkers] at hw'
    rcases List.mem_or_eq_of_mem_set hw' with hw' | rfl
    · exact .inl ⟨w', hw', rfl, rfl⟩
    · exact .inl ⟨w, List.mem_of_getElem? hk, rfl, rfl⟩

theorem serveCheck_workers (s : Serving) (k : Nat) (w : Worker) :
    (serveCheck s k w).workers = s.workers.set k { w with stage := .finished } ∧
      (serveCheck s k w).epoch = s.epoch := by
  rcases hcheck : checkNonce s.table w.ticket.found (.of w.mode w.nonce) with ⟨_ | _, t⟩
  · rw [serveCheck_recorded hcheck]
    exact ⟨rfl, rfl⟩
  · simp only [serveCheck, TableState.check, hcheck, ↓reduceIte]
    exact ⟨trivial, trivial⟩

theorem served_step (s : Serving) {a : ServeAct}
    (ha : ∀ master role now, a ≠ .extend master role now) :
    Served s (serveStep P hopDecoy s a) := by
  cases a with
  | extend master role now => exact absurd rfl (ha master role now)
  | receive mode wire pad now =>
    rcases find_cases s.toTableState (wireHint mode wire) now with hfind | ⟨f, hfound, hfind⟩
    · simp only [serveStep, serveReceive, hfind]
      exact served_refl s
    · have hkept : SessionsKept s.table (Function.update s.table f.idx
          { s.table f.idx with lastActiveMs := now }) := sessionsKept_update rfl rfl rfl
      simp only [serveStep, serveReceive, hfind]
      split
      · exact ⟨fun i => (hkept i).1, rfl, (served_refl s).workers⟩
      · refine ⟨fun i => (hkept i).1, rfl, fun w' hw' => ?_⟩
        rcases List.mem_append.mp hw' with hw' | hw'
        · exact (served_refl s).workers w' hw'
        · obtain rfl := List.mem_singleton.mp hw'
          exact .inr ⟨f, hfound, rfl⟩
  | confirm k =>
    simp only [serveStep]
    split
    · rename_i w hk
      split
      · exact served_set (sessionsKept_confirm P _ _) hk .confirmed rfl rfl rfl
      · exact served_refl s
    · exact served_refl s
  | check k =>
    simp only [serveStep]
    split
    · rename_i w hk
      split
      · obtain ⟨hworkers, hepoch⟩ := serveCheck_workers s k w
        exact served_set (sessionsKept_check _ _ _) hk .finished (serveCheck_delivers s k w).1
          hepoch hworkers
      · exact served_refl s
    · exact served_refl s

/-! Every session and every matched packet goes back to one set-up. -/

structure KeyedOk (s : KeyedNode K) : Prop where
  fresh : (s.setUps.map SetUp.transcript).Nodup
  slots : ∀ i, (s.table i).inUse = true → ∃ x ∈ s.setUps, x.idx = i ∧ x.epoch = s.epoch i ∧
    SlotDerived P (fun m => m = x.master) s.table i
  workers : ∀ w ∈ s.workers, ∃ x ∈ s.setUps, x.idx = w.ticket.found.idx ∧
    x.epoch = w.ticket.epoch ∧ ∃ c, c < 2 ^ 64 ∧
      w.hint = packetDeriveHopHint P (packetDeriveHintSeed P x.master) c

theorem keyedOk_initial (nodeKp : K.Secret) : KeyedOk K P (.initial K nodeKp) where
  fresh := List.nodup_nil
  slots i huse := by
    simp [KeyedNode.initial, Serving.initial, TableState.initial, zeroEntry] at huse
  workers := by simp [KeyedNode.initial, Serving.initial]

theorem handleExtend_eq_some {nodeKp : K.Secret} {t t' : Table} {frame : WirePacket} {now : Nat}
    {req : ExtendRequest} {master : AesKey} {i : Fin maxSessions}
    (h : handleExtend K P nodeKp myPort t frame now = some (req, master, i, t')) :
    recvExtendRequest frame = some req ∧ extendMaster K nodeKp myPort req = some master ∧
      extendSession P t master req.role now = some (i, t') := by
  obtain ⟨req', hreq, h⟩ := Option.bind_eq_some_iff.mp h
  obtain ⟨master', hmaster, h⟩ := Option.bind_eq_some_iff.mp h
  obtain ⟨⟨j, u⟩, hext, h⟩ := Option.map_eq_some_iff.mp h
  cases h
  exact ⟨hreq, hmaster, hext⟩

variable {K P} in
theorem Derived.hint_master {sess : SessionEntry} {master : AesKey}
    (h : Derived P (fun m => m = master) sess) (d : Domain) (w : Fin hintWindow) :
    ∃ c, c < 2 ^ 64 ∧ sess.hintWindow d w
      = packetDeriveHopHint P (packetDeriveHintSeed P master) c := by
  have heq := h.hint_eq P d w
  obtain ⟨m, rfl, hseed, -⟩ := h
  rw [hseed] at heq
  exact ⟨_, Nat.mod_lt _ (by norm_num), heq⟩

namespace KeyedOk
variable {K P} {s : KeyedNode K} (ok : KeyedOk K P s)
include ok

theorem serve {a : ServeAct} (ha : ∀ master role now, a ≠ .extend master role now) :
    KeyedOk K P { s with toServing := serveStep P hopDecoy s.toServing a } := by
  have hserved := served_step P hopDecoy s.toServing ha
  refine ⟨ok.fresh, fun i huse => ?_, fun w' hw' => ?_⟩
  · obtain ⟨x, hx, hidx, hepoch, hderived⟩ := ok.slots i (hserved.inUse i ▸ huse)
    exact ⟨x, hx, hidx, by rw [hserved.epoch]; exact hepoch,
      slotDerived_serve P hopDecoy hderived a ha⟩
  · rcases hserved.workers w' hw' with ⟨w, hw, hhint, hticket⟩ | ⟨f, hfound, hticket⟩
    · obtain ⟨x, hx, hidx, hepoch, c, hc, heq⟩ := ok.workers w hw
      exact ⟨x, hx, by rw [hticket, hidx], by rw [hticket, hepoch], c, hc, hhint.trans heq⟩
    · obtain ⟨-, huse, hwin, -⟩ := foundAt_eq_some hfound
      obtain ⟨x, hx, hidx, hepoch, hderived⟩ := ok.slots f.idx huse
      obtain ⟨c, hc, heq⟩ := (hderived huse).hint_master f.domain f.windowIdx
      exact ⟨x, hx, by rw [hticket, hidx], by rw [hticket, hepoch], c, hc, hwin.symm.trans heq⟩

theorem frame {frame : WirePacket} {now : Nat} (hfresh : ¬ Replays s frame now) :
    KeyedOk K P (keyedStep K P myPort hopDecoy s (.frame frame now)) := by
  simp only [keyedStep]
  split
  · exact ok
  · rename_i req master i t hext
    obtain ⟨hreq, -, hsess⟩ := handleExtend_eq_some K P myPort hext
    have hextend : s.extend P master req.role now = some (i, { s with
        table := t, epoch := Function.update s.epoch i (s.epoch i + 1) }) := by
      simp only [TableState.extend, hsess, Option.map_some]
    obtain ⟨hnew, hold⟩ := slotDerived_extend P hsess
    have halloc : (sessionAlloc s.table now).isSome := by
      obtain ⟨u, hu, -⟩ := Option.map_eq_some_iff.mp hsess
      rw [hu]
      rfl
    have hunused : ∀ x ∈ s.setUps,
        x.transcript ≠ (K.pubkey s.nodeKp, req.clientPub, req.role) :=
      fun x hx heq => hfresh ⟨req, hreq, halloc, x, hx, heq⟩
    simp only [serveStep, hextend]
    refine ⟨?_, fun k huse => ?_, fun w hw => ?_⟩
    · refine List.nodup_cons.mpr ⟨fun hmem => ?_, ok.fresh⟩
      obtain ⟨x, hx, heq⟩ := List.mem_map.mp hmem
      exact hunused x hx heq
    · by_cases hk : k = i
      · subst hk
        exact ⟨_, List.mem_cons_self, rfl, (Function.update_self k _ s.epoch).symm, hnew⟩
      · obtain ⟨sess, rfl, -⟩ := extendSession_eq_some P hsess
        dsimp only at huse
        rw [Function.update_of_ne hk] at huse
        obtain ⟨x, hx, hidx, hepoch, hderived⟩ := ok.slots k huse
        exact ⟨x, List.mem_cons_of_mem _ hx, hidx,
          hepoch.trans (Function.update_of_ne hk _ s.epoch).symm, hold _ k hk hderived⟩
    · obtain ⟨x, hx, hrest⟩ := ok.workers w hw
      exact ⟨x, List.mem_cons_of_mem _ hx, hrest⟩

theorem step {a : KeyedAct K} (ha : NoReplay K s a) :
    KeyedOk K P (keyedStep K P myPort hopDecoy s a) := by
  cases a with
  | frame frame now => exact ok.frame myPort hopDecoy ha
  | rotate nodeKp => exact ⟨ok.fresh, ok.slots, ok.workers⟩
  | receive mode wire pad now => exact ok.serve hopDecoy fun _ _ _ h => by cases h
  | confirm k => exact ok.serve hopDecoy fun _ _ _ h => by cases h
  | check k => exact ok.serve hopDecoy fun _ _ _ h => by cases h

/-- Two set-ups with a hint in common are one. -/
theorem same_setUp (hideal : DerivationsDistinct P s.setUps) {x y : SetUp} (hx : x ∈ s.setUps)
    (hy : y ∈ s.setUps) {c c' : Nat} (hc : c < 2 ^ 64) (hc' : c' < 2 ^ 64)
    (h : packetDeriveHopHint P (packetDeriveHintSeed P x.master) c
      = packetDeriveHopHint P (packetDeriveHintSeed P y.master) c') : x = y := by
  have hmaster := (hideal.hints x.master y.master ⟨x, hx, rfl⟩ ⟨y, hy, rfl⟩ c c' hc hc' h).1
  exact List.inj_on_of_nodup_map ok.fresh hx hy (hideal.masters x hx y hy hmaster)

theorem unambiguous (hideal : DerivationsDistinct P s.setUps) :
    HintsUnique s.table ∧ OneSession s.workers := by
  constructor
  · intro i j hi hj d w e v h
    obtain ⟨x, hx, hxi, -, hxd⟩ := ok.slots i hi
    obtain ⟨y, hy, hyj, -, hyd⟩ := ok.slots j hj
    obtain ⟨c, hc, heq⟩ := (hxd hi).hint_master d w
    obtain ⟨c', hc', heq'⟩ := (hyd hj).hint_master e v
    obtain rfl := ok.same_setUp hideal hx hy hc hc' (heq.symm.trans (h.trans heq'))
    exact hxi.symm.trans hyj
  · intro w hw w' hw' h
    obtain ⟨x, hx, hidx, hepoch, c, hc, heq⟩ := ok.workers w hw
    obtain ⟨y, hy, hidx', hepoch', c', hc', heq'⟩ := ok.workers w' hw'
    obtain rfl := ok.same_setUp hideal hx hy hc hc' (heq.symm.trans (h.trans heq'))
    exact ⟨hidx.symm.trans hidx', hepoch.symm.trans hepoch'⟩

end KeyedOk

theorem setUps_keyedStep (s : KeyedNode K) (a : KeyedAct K) :
    s.setUps ⊆ (keyedStep K P myPort hopDecoy s a).setUps := by
  cases a with
  | frame frame now =>
    simp only [keyedStep]
    split
    · exact List.Subset.refl _
    · exact List.subset_cons_self _ _
  | rotate nodeKp => exact List.Subset.refl _
  | receive mode wire pad now => exact List.Subset.refl _
  | confirm k => exact List.Subset.refl _
  | check k => exact List.Subset.refl _

theorem DerivationsDistinct.subset {l l' : List SetUp} (h : DerivationsDistinct P l')
    (hl : l ⊆ l') : DerivationsDistinct P l := by
  refine ⟨fun x hx y hy => h.masters x (hl hx) y (hl hy), ?_⟩
  rintro _ _ ⟨x, hx, rfl⟩ ⟨y, hy, rfl⟩
  exact h.hints x.master y.master ⟨x, hl hx, rfl⟩ ⟨y, hl hy, rfl⟩

/-- As long as no request frame is replayed, hints are unambiguous throughout. -/
theorem hints_unambiguous (nodeKp : K.Secret) (acts : List (KeyedAct K))
    (hideal : DerivationsDistinct P
      (Machine.run (keyedStep K P myPort hopDecoy) acts (.initial K nodeKp)).setUps)
    (hfresh : Machine.StepsMeet (keyedStep K P myPort hopDecoy) (NoReplay K) acts
      (.initial K nodeKp)) :
    Machine.Along (keyedStep K P myPort hopDecoy)
      (fun s => HintsUnique s.table ∧ OneSession s.workers) acts (.initial K nodeKp) := by
  have hok := Machine.along_of_stepsMeet (keyedStep K P myPort hopDecoy) (KeyedOk K P)
    (fun s a ok ha => ok.step myPort hopDecoy ha) (keyedOk_initial K P nodeKp) hfresh
  have hboth := hok.upto (R := fun s => DerivationsDistinct P s.setUps)
    (keyedStep K P myPort hopDecoy)
    (fun s a h => h.subset P (setUps_keyedStep K P myPort hopDecoy s a)) hideal
  exact hboth.mono _ fun s hs => hs.1.unambiguous hs.2

/-! The request frame of a session is sent again once the window has moved on. -/

def sampleRequest (role : UInt8) : ExtendRequest := ⟨role, 0, KeyExchange.sample.pubkey (5 : UInt8)⟩

def sampleFrame (role : UInt8) : WirePacket :=
  (netSendPaddedFrame (sampleRequest role).bytes (Bytes.zero _)).getD (Bytes.zero _)

def extendedMaster (role : UInt8) : AesKey :=
  (extendMaster .sample (3 : UInt8) 9040 (sampleRequest role)).getD (Bytes.zero _)

def extendedPath : SphinxPath :=
  { SphinxPath.sample with
    hops := Function.update SphinxPath.sample.hops 0
      (deriveHop .sample (extendedMaster sessionRoleA)) }

def extendedPacket (c : Nat) : WirePacket :=
  (packetSphinxBuildEx .sample extendedPath [7] (pktReal ||| pktDestService) c (-1)
    (.sample c)).getD (Bytes.zero _)

def handled (wire : WirePacket) (k : Nat) : List (KeyedAct .sample) :=
  [.receive .data wire (Bytes.zero _) 0, .confirm k, .check k]

def replayRun : List (KeyedAct .sample) :=
  .frame (sampleFrame sessionRoleA) 0 ::
    (handled (extendedPacket 0) 0 ++ handled (extendedPacket 40) 1 ++
      .frame (sampleFrame sessionRoleA) 0 :: handled (extendedPacket 0) 2)

def replayed : KeyedNode .sample :=
  Machine.run (keyedStep .sample .sample 9040 false) replayRun (.initial .sample (3 : UInt8))

set_option maxRecDepth 100000 in
theorem replayed_extend_shares_hints :
    ¬ HintsUnique replayed.table ∧
      (∃ e ∈ replayed.sent 0, e.worker.wire = extendedPacket 0) ∧
      (∃ e ∈ replayed.sent 1, e.worker.wire = extendedPacket 0) := by
  have hrun : ((replayed.table 0).inUse = true ∧ (replayed.table 1).inUse = true ∧
      (replayed.table 0).hintWindow .real ⟨0, by decide⟩
        = (replayed.table 1).hintWindow .real ⟨9, by decide⟩) ∧
      (∃ e ∈ replayed.sent 0, e.worker.wire = extendedPacket 0) ∧
      (∃ e ∈ replayed.sent 1, e.worker.wire = extendedPacket 0) := by
    decide +kernel
  obtain ⟨⟨hfirst, hsecond, hwin⟩, hsent⟩ := hrun
  exact ⟨fun h => absurd (h 0 1 hfirst hsecond _ _ _ _ hwin) (by decide), hsent⟩

/-- Two sessions of one client, one in each role. -/
def bothRoles : List (KeyedAct .sample) :=
  [.frame (sampleFrame sessionRoleA) 0, .frame (sampleFrame sessionRoleB) 0]

def bothSetUps : List SetUp :=
  [⟨KeyExchange.sample.pubkey (3 : UInt8), KeyExchange.sample.pubkey (5 : UInt8), sessionRoleB,
      extendedMaster sessionRoleB, 1, 1⟩,
    ⟨KeyExchange.sample.pubkey (3 : UInt8), KeyExchange.sample.pubkey (5 : UInt8), sessionRoleA,
      extendedMaster sessionRoleA, 0, 1⟩]

theorem hints_unambiguous_bothRoles :
    Machine.Along (keyedStep .sample .sample 9040 false)
      (fun s => HintsUnique s.table ∧ OneSession s.workers) bothRoles
      (.initial .sample (3 : UInt8)) := by
  have hsetUps : (Machine.run (keyedStep .sample .sample 9040 false) bothRoles
      (.initial .sample (3 : UInt8))).setUps = bothSetUps := by
    decide +kernel
  refine hints_unambiguous .sample .sample 9040 false (3 : UInt8) bothRoles ?_ ?_
  · rw [hsetUps]
    refine ⟨by decide +kernel, hintsDistinct_of_seeds ?_⟩
    have hinj : ∀ x ∈ bothSetUps, ∀ y ∈ bothSetUps,
        Bytes.fit 24 (packetDeriveHintSeed .sample x.master).toList
          = Bytes.fit 24 (packetDeriveHintSeed .sample y.master).toList → x.master = y.master := by
      decide +kernel
    rintro _ _ ⟨x, hx, rfl⟩ ⟨y, hy, rfl⟩ h
    exact hinj x hx y hy h
  · have hfirst : (Machine.run (keyedStep .sample .sample 9040 false)
        [.frame (sampleFrame sessionRoleA) 0] (.initial .sample (3 : UInt8))).setUps
          = bothSetUps.drop 1 := by
      decide +kernel
    have hsecond : recvExtendRequest (sampleFrame sessionRoleB)
        = some (sampleRequest sessionRoleB) :=
      recvExtendRequest_sent (by decide +kernel : netSendPaddedFrame
        (sampleRequest sessionRoleB).bytes (Bytes.zero _) = some (sampleFrame sessionRoleB))
    refine ⟨?_, ?_, trivial⟩
    · rintro ⟨_, _, _, x, hx, _⟩
      cases hx
    · rintro ⟨req, hreq, -, x, hx, heq⟩
      obtain rfl := Option.some.inj (hreq.symm.trans hsecond)
      have hx' : x ∈ bothSetUps.drop 1 := hfirst ▸ hx
      obtain rfl := List.mem_singleton.mp hx'
      cases congrArg (fun r => r.2.2) heq

end AnonSecNet.MixNode
