import AnonSecNet.MixNode.CoverView
import AnonSecNet.MixNode.Operations
import AnonSecNet.Foundation.ReplayGuard

/-! One session under replay: `handle_data` on the packets the client built for a hop and on
exact copies of them acts as a window in each counter domain and one ring for both. -/
namespace AnonSecNet.MixNode
open Octets ReplayGuard
variable (P : Primitives)

/-- The counters of the client's packets of a domain, up to where the windows of the real ones
would reach the cover counters. -/
def FromClient : Domain × Nat → Prop
  | (.real, c) => ∃ counters, counters.sendPkt + hintWindow ≤ hintCoverCounterBase ∧
      (Client.nextSendPktCounter counters).1 = c
  | (.cover, c) => ∃ counters, counters.sendCoverPkt + hintWindow ≤ hintCoverCounterBase ∧
      (Client.nextCoverPktCounter counters).1 = c

theorem fromClient_iff (x : Domain × Nat) :
    FromClient x ↔ x.1.first ≤ x.2 ∧ x.2 + 64 ≤ x.1.first + 2 ^ 62 := by
  obtain ⟨d, c⟩ := x
  cases d with
  | real =>
    simp only [FromClient, Client.nextSendPktCounter, Domain.first, hintCoverCounterBase,
      hintWindow, longValue]
    constructor
    · rintro ⟨counters, hle, rfl⟩
      omega
    · rintro ⟨-, hle⟩
      exact ⟨⟨c, 0, 0⟩, by dsimp only; omega, by dsimp only; omega⟩
  | cover =>
    simp only [FromClient, Client.nextCoverPktCounter, Domain.first, hintCoverCounterBase,
      hintWindow, longValue]
    constructor
    · rintro ⟨counters, hle, rfl⟩
      omega
    · rintro ⟨hfirst, hle⟩
      exact ⟨⟨0, c - 2 ^ 62, 0⟩, by dsimp only; omega, by dsimp only; omega⟩

/-- Real counters stay so far below 2^62 that no window of theirs reaches it. -/
theorem fromClient_range {x : Domain × Nat} (hx : FromClient x) :
    x.2 < 2 ^ 64 ∧ (x.1 = .real → x.2 + 64 ≤ 2 ^ 62) ∧ (x.1 = .cover → 2 ^ 62 ≤ x.2) := by
  obtain ⟨hfirst, hle⟩ := (fromClient_iff x).mp hx
  cases hd : x.1 with
  | real =>
    rw [hd] at hfirst hle
    simp only [Domain.first] at hfirst hle
    exact ⟨by omega, fun _ => by omega, by simp⟩
  | cover =>
    rw [hd] at hfirst hle
    simp only [Domain.first, hintCoverCounterBase] at hfirst hle
    exact ⟨by omega, by simp, fun _ => by omega⟩

/-- The packets the client built for one hop, one for each value of its two counters, with
nonces that do not repeat. -/
structure ClientPackets (path : SphinxPath) (i : Fin nPathHops) where
  packet : Domain × Nat → WirePacket
  nonce : Domain × Nat → Bytes nonceBytes
  built : ∀ x, FromClient x → ∃ payload flags dropAtHop rnd pads pkt,
    packetSphinxBuildEx P path payload flags x.2 dropAtHop rnd = some pkt ∧
      packetAtHop P path pads pkt i = some (packet x) ∧ rnd.hopNonce i = nonce x
  fresh : ∀ x y, FromClient x → FromClient y → nonce x = nonce y → x = y

/-- What the relay makes of one of these packets. -/
theorem ClientPackets.peels {path : SphinxPath} {i : Fin nPathHops}
    (packets : ClientPackets P path i) {x : Domain × Nat} (hx : FromClient x) :
    outerHint (packets.packet x) = packetDeriveHopHint P (path.hops i).hintSeed x.2 ∧
      ∃ dropAtHop, ∀ pad, ∃ out, packetSphinxPeel P (packets.packet x) (path.hops i).headerEncKey
        (path.hops i).headerMacKey pad = some (hopInfoFor (path.hops i) (nextHopPort path i)
          (hopFlagOf dropAtHop i) (packets.nonce x), out) := by
  obtain ⟨payload, flags, dropAtHop, rnd, pads, pkt, hbuild, hat, hnonce⟩ := packets.built x hx
  obtain ⟨sect, hops, hcar, hlen⟩ := carries_of_build P path x.2 dropAtHop rnd hbuild hat
  refine ⟨hcar.outerHint, dropAtHop, fun pad => ?_⟩
  obtain ⟨out, hpeel, -⟩ := hcar.peel P x.2 path dropAtHop rnd sect hlen pad
  refine ⟨out, ?_⟩
  rw [hpeel, ← hnonce]
  rfl

/-- `handle_data` on a packet that is found and peeled. -/
theorem handleData_of_found (hopDecoy : Bool) {t t₁ : Table} {pkt pad out : WirePacket}
    {now : Nat} {f : Found} {hop : HopInfo} {checked : Bool × Table}
    (hfind : sessionFind t (outerHint pkt) now = (some f, t₁))
    (hpeel : packetSphinxPeel P pkt f.keys.headerEncKey f.keys.headerMacKey pad = some (hop, out))
    (hcheck : sessionCheckNonceByIdx (sessionConfirmHintMatch P t₁ f) f.idx f.generation hop.nonce
      = checked) :
    (handleData P hopDecoy t pkt now pad).2 = checked.2 ∧
      ((handleData P hopDecoy t pkt now pad).1.isSome ↔
        checked.1 = false ∧ ¬ (hopDecoy = true ∧ hop.hopFlag = hopDropMarker) ∧
          isAllowedNextHop localhostBytes hop.nextPort) := by
  obtain ⟨drop, t₂⟩ := checked
  simp only [handleData, hfind, hpeel, hcheck]
  cases drop with
  | true => simp
  | false =>
    simp only [Bool.false_eq_true, ↓reduceIte, true_and]
    split
    · rename_i hdecoy
      simp [hdecoy]
    · rename_i hdecoy
      split
      · rename_i hallowed
        exact ⟨rfl, iff_of_true rfl ⟨hdecoy, hallowed⟩⟩
      · rename_i hallowed
        exact ⟨rfl, iff_of_false (by simp) fun h => hallowed h.2⟩

/-- The guard that a session amounts to. -/
def sessionGuard : Params Domain := ⟨Domain.first, hintWindow, hintSafetyMargin, replayWindow⟩

section
variable {P} (master : AesKey) (j : Fin maxSessions) {path : SphinxPath} {i : Fin nPathHops}
  (packets : ClientPackets P path i)

/-- The slot holds a session of `master` in the state the guard says, and no other slot in
use has one of its hints. -/
structure Simulates (t : Table) (g : Guard Domain) : Prop where
  live : (t j).inUse = true
  keys : ((t j).headerEncKey, (t j).headerMacKey, (t j).returnBlindKey)
    = packetDeriveHopKeys P master
  seed : (t j).hintSeed = packetDeriveHintSeed P master
  hints : ∃ log, HintOk P (t j).toHintState log ∧ ∀ d, (log d).max? = g.mark d
  marks : ∀ d m, g.mark d = some m → m + 64 ≤ d.first + 2 ^ 62
  ring : (t j).seenNonces = .ofHistory (g.accepted.map packets.nonce)
  stamps : ∀ x ∈ g.accepted, FromClient x
  foreign : ∀ k, k ≠ j → (t k).inUse = true → ∀ d w c, c < 2 ^ 64 →
    (t k).hintWindow d w ≠ packetDeriveHopHint P (packetDeriveHintSeed P master) c

variable {master j packets} {t : Table} {g : Guard Domain}

theorem simulates_update {sess : SessionEntry} {g' : Guard Domain}
    (sim : Simulates master j packets t g) (hlive : sess.inUse = true)
    (hkeys : (sess.headerEncKey, sess.headerMacKey, sess.returnBlindKey)
      = packetDeriveHopKeys P master)
    (hseed : sess.hintSeed = packetDeriveHintSeed P master)
    (hhints : ∃ log, HintOk P sess.toHintState log ∧ ∀ d, (log d).max? = g'.mark d)
    (hmarks : ∀ d m, g'.mark d = some m → m + 64 ≤ d.first + 2 ^ 62)
    (hring : sess.seenNonces = .ofHistory (g'.accepted.map packets.nonce))
    (hstamps : ∀ x ∈ g'.accepted, FromClient x) :
    Simulates master j packets (Function.update t j sess) g' where
  live := by rwa [Function.update_self]
  keys := by rwa [Function.update_self]
  seed := by rwa [Function.update_self]
  hints := by rwa [Function.update_self]
  marks := hmarks
  ring := by rwa [Function.update_self]
  stamps := hstamps
  foreign k hk := by
    rw [Function.update_of_ne hk]
    exact sim.foreign k hk

section
variable (sim : Simulates master j packets t g)
include sim

theorem Simulates.base_eq (d : Domain) : (t j).hintBase d = g.base sessionGuard d := by
  obtain ⟨log, ok, hlog⟩ := sim.hints
  have hbase := ok.base d
  have hmark := ok.marks d
  rw [mark, hlog d] at hmark
  unfold Guard.base
  cases hm : g.mark d with
  | none =>
    rw [hm, Option.getD_none] at hmark
    rw [hbase, if_pos hmark]
    rfl
  | some m =>
    rw [hm, Option.getD_some] at hmark
    have hlt := sim.marks d m hm
    have hfirst := first_le d
    rw [hmark, if_neg (by unfold noHighWater; omega)] at hbase
    rw [hbase, Option.elim_some]
    simp only [sessionGuard, hintSafetyMargin]
    omega

theorem Simulates.base_range (d : Domain) :
    d.first ≤ g.base sessionGuard d ∧ g.base sessionGuard d + 64 ≤ d.first + 2 ^ 62 := by
  unfold Guard.base
  cases hm : g.mark d with
  | none => exact ⟨le_rfl, by simp only [Option.elim_none, sessionGuard]; omega⟩
  | some m =>
    have hlt := sim.marks d m hm
    simp only [Option.elim_some, sessionGuard, hintSafetyMargin]
    omega

/-- A window slot holds a packet's hint when it stands for the packet's own counter. -/
theorem Simulates.window_iff (hideal : HintsDistinct P fun m => m = master) {x : Domain × Nat}
    (hx : FromClient x) (d : Domain) (w : Fin hintWindow) :
    (t j).hintWindow d w = packetDeriveHopHint P (packetDeriveHintSeed P master) x.2 ↔
      d = x.1 ∧ g.base sessionGuard d + w = x.2 := by
  obtain ⟨log, ok, -⟩ := sim.hints
  obtain ⟨hlt, hreal, hcover⟩ := fromClient_range hx
  have hw : w.val < 64 := w.isLt
  have hrange := sim.base_range d
  have hfirst := first_le d
  rw [ok.window, sim.base_eq, sim.seed]
  constructor
  · intro heq
    have hc := (hideal _ _ rfl rfl _ _ (by omega) hlt heq).2
    refine ⟨?_, hc⟩
    cases d with
    | real =>
      cases hd : x.1 with
      | real => rfl
      | cover =>
        have hfar := hcover hd
        simp only [Domain.first] at hrange
        omega
    | cover =>
      cases hd : x.1 with
      | cover => rfl
      | real =>
        have hfar := hreal hd
        simp only [Domain.first, hintCoverCounterBase] at hrange
        omega
  · rintro ⟨-, hc⟩
    rw [hc]

theorem Simulates.foundAt_other {c : Nat} (hc : c < 2 ^ 64) {k : Fin maxSessions} (hk : k ≠ j) :
    foundAt t (packetDeriveHopHint P (packetDeriveHintSeed P master) c) k = none := by
  cases hf : foundAt t (packetDeriveHopHint P (packetDeriveHintSeed P master) c) k with
  | none => rfl
  | some f =>
    obtain ⟨-, huse, hwin, -⟩ := foundAt_eq_some hf
    exact absurd hwin (sim.foreign k hk huse _ _ c hc)

theorem Simulates.found (hideal : HintsDistinct P fun m => m = master) {x : Domain × Nat}
    (hx : FromClient x) (hin : g.InWindow sessionGuard x) :
    ∃ f, firstFound t (packetDeriveHopHint P (packetDeriveHintSeed P master) x.2) = some f ∧
      f.idx = j ∧ f.domain = x.1 ∧ g.base sessionGuard x.1 + f.windowIdx = x.2 ∧
      f.keys = (t j).keys ∧ f.generation = (t j).generation := by
  obtain ⟨hlow, hhigh⟩ := hin
  have hlt := (fromClient_range hx).1
  have hoff : x.2 - g.base sessionGuard x.1 < hintWindow := by
    simp only [sessionGuard] at hlow hhigh ⊢
    omega
  have hwin := (sim.window_iff hideal hx x.1 ⟨_, hoff⟩).mpr ⟨rfl, by dsimp only; omega⟩
  obtain ⟨f, hf, hidx⟩ := sessionFind_of_window 0 sim.live hwin
  rw [sessionFind_fst] at hf
  have hj := hidx fun k hk => sim.foundAt_other hlt (ne_of_lt hk)
  obtain ⟨k, hk, -⟩ := firstFound_eq_some hf
  obtain ⟨hik, -, hown, hkeys, hgen⟩ := foundAt_eq_some hk
  rw [← hik, hj] at hown hkeys hgen
  obtain ⟨hd, hc⟩ := (sim.window_iff hideal hx f.domain f.windowIdx).mp hown
  exact ⟨f, hf, hj, hd, hd ▸ hc, hkeys, hgen⟩

theorem Simulates.not_found (hideal : HintsDistinct P fun m => m = master) {x : Domain × Nat}
    (hx : FromClient x) (hout : ¬ g.InWindow sessionGuard x) :
    firstFound t (packetDeriveHopHint P (packetDeriveHintSeed P master) x.2) = none := by
  have hlt := (fromClient_range hx).1
  cases hf : firstFound t (packetDeriveHopHint P (packetDeriveHintSeed P master) x.2) with
  | none => rfl
  | some f =>
    obtain ⟨k, hk, -⟩ := firstFound_eq_some hf
    by_cases hkj : k = j
    · subst hkj
      obtain ⟨-, -, hwin, -⟩ := foundAt_eq_some hk
      obtain ⟨hd, hc⟩ := (sim.window_iff hideal hx f.domain f.windowIdx).mp hwin
      have hw : f.windowIdx.val < hintWindow := f.windowIdx.isLt
      rw [hd] at hc
      refine absurd ⟨?_, ?_⟩ hout
      · omega
      · simp only [sessionGuard] at hc ⊢
        omega
    · rw [sim.foundAt_other hlt hkj] at hk
      cases hk

theorem Simulates.marks_raise {x : Domain × Nat} (hx : FromClient x) (d : Domain) (m : Nat)
    (hm : g.raise x d = some m) : m + 64 ≤ d.first + 2 ^ 62 := by
  have hlt := ((fromClient_iff x).mp hx).2
  unfold Guard.raise at hm
  by_cases hd : d = x.1
  · subst hd
    rw [Function.update_self] at hm
    cases hmark : g.mark x.1 with
    | none =>
      rw [hmark] at hm
      cases hm
      exact hlt
    | some m' =>
      rw [hmark] at hm
      cases hm
      have hmarks := sim.marks x.1 m' hmark
      rw [Option.elim_some]
      omega
  · rw [Function.update_of_ne hd] at hm
    exact sim.marks d m hm

theorem Simulates.hints_raise {x : Domain × Nat} (hx : FromClient x) {f : Found}
    (hd : f.domain = x.1) (hc : g.base sessionGuard x.1 + f.windowIdx = x.2) :
    ∃ log, HintOk P (sessionAdvanceHintWindow P (t j).toHintState f.domain f.windowIdx) log ∧
      ∀ d, (log d).max? = g.raise x d := by
  obtain ⟨log, ok, hlog⟩ := sim.hints
  have hlt := ((fromClient_iff x).mp hx).2
  have hfirst := first_le x.1
  have hoffset : (t j).hintBase f.domain + f.windowIdx = x.2 := by
    rw [sim.base_eq, hd, hc]
  have hcounter :
      (⟨f, .data (packets.nonce x), x.1, x.2, .verified⟩ : Thread).counter < 2 ^ 63 := by
    dsimp only
    omega
  refine ⟨_, ok.advance P hcounter (Or.inl ⟨hd, hoffset⟩), fun d => ?_⟩
  dsimp only
  unfold Guard.raise
  by_cases hdd : d = x.1
  · subst hdd
    rw [Function.update_self, Function.update_self, List.max?_cons, hlog]
  · rw [Function.update_of_ne hdd, Function.update_of_ne hdd, hlog]

theorem Simulates.mem_ring {x : Domain × Nat} (hx : FromClient x) :
    packets.nonce x ∈ (g.accepted.map packets.nonce).take replayWindow
      ↔ x ∈ g.accepted.take replayWindow := by
  rw [← List.map_take, List.mem_map]
  constructor
  · rintro ⟨y, hy, heq⟩
    rwa [← packets.fresh y x (sim.stamps y (List.mem_of_mem_take hy)) hx heq]
  · exact fun hmem => ⟨x, hmem, rfl⟩

/-- The slot of the session once a packet went through it. -/
theorem Simulates.checked (now : Nat) {f : Found} {x : Domain × Nat} (hx : FromClient x)
    (hj : f.idx = j) (hd : f.domain = x.1)
    (hc : g.base sessionGuard x.1 + f.windowIdx = x.2) (hgen : f.generation = (t j).generation)
    (hin : g.InWindow sessionGuard x) {checked : Bool × Table}
    (hcheck : sessionCheckNonceByIdx (sessionConfirmHintMatch P
      (Function.update t f.idx { t f.idx with lastActiveMs := now }) f) f.idx f.generation
      (packets.nonce x) = checked) :
    Simulates master j packets checked.2 (g.offer sessionGuard x) ∧
      (checked.1 = false ↔ g.Accepts sessionGuard x) := by
  subst hj
  have hsame : SameSession (Function.update t f.idx { t f.idx with lastActiveMs := now })
      f.idx f.generation := by
    rw [SameSession, Function.update_self]
    exact ⟨sim.live, hgen.symm⟩
  rw [sessionConfirmHintMatch, if_pos hsame, Function.update_self, Function.update_idem] at hcheck
  have hsame' : SameSession (Function.update t f.idx
      { t f.idx with
        lastActiveMs := now
        toHintState := sessionAdvanceHintWindow P (t f.idx).toHintState f.domain f.windowIdx })
      f.idx f.generation := by
    rw [SameSession, Function.update_self]
    exact ⟨sim.live, hgen.symm⟩
  rw [sessionCheckNonceByIdx, if_pos hsame'] at hcheck
  simp only [Function.update_self, Function.update_idem, sim.ring,
    Recent.checkAndRecord_ofHistory, sim.mem_ring hx] at hcheck
  have hhints := sim.hints_raise hx hd hc
  have hmarks := sim.marks_raise hx
  have hmark : (g.offer sessionGuard x).mark = g.raise x := if_pos hin
  by_cases hmem : x ∈ g.accepted.take replayWindow
  · have hno : ¬ g.Accepts sessionGuard x := fun h => h.2 hmem
    have hacc : (g.offer sessionGuard x).accepted = g.accepted := if_neg hno
    rw [if_pos hmem] at hcheck
    subst hcheck
    refine ⟨?_, iff_of_false (by simp) hno⟩
    exact simulates_update sim sim.live sim.keys ((hintSeed_advance P _ _ _).trans sim.seed)
      (hmark ▸ hhints) (hmark ▸ hmarks) (by rw [hacc]) (by rw [hacc]; exact sim.stamps)
  · have hyes : g.Accepts sessionGuard x := ⟨hin, hmem⟩
    have hacc : (g.offer sessionGuard x).accepted = x :: g.accepted := if_pos hyes
    rw [if_neg hmem] at hcheck
    subst hcheck
    refine ⟨?_, iff_of_true rfl hyes⟩
    refine simulates_update sim sim.live sim.keys ((hintSeed_advance P _ _ _).trans sim.seed)
      (hmark ▸ hhints) (hmark ▸ hmarks) (by rw [hacc, List.map_cons]) ?_
    rw [hacc]
    intro y hy
    rcases List.mem_cons.mp hy with rfl | hy
    · exact hx
    · exact sim.stamps y hy

/-- `handle_data` refines the guard. -/
theorem Simulates.handle (hideal : HintsDistinct P fun m => m = master)
    (hhop : path.hops i = deriveHop P master) {x : Domain × Nat} (hx : FromClient x)
    (hopDecoy : Bool) (now : Nat) (pad : WirePacket) :
    Simulates master j packets (handleData P hopDecoy t (packets.packet x) now pad).2
        (g.offer sessionGuard x) ∧
      ((handleData P hopDecoy t (packets.packet x) now pad).1.isSome →
        g.Accepts sessionGuard x) ∧
      (g.Accepts sessionGuard x → hopDecoy = false →
        isAllowedNextHop localhostBytes (nextHopPort path i) →
        (handleData P hopDecoy t (packets.packet x) now pad).1.isSome) := by
  obtain ⟨hhint, dropAtHop, hpeels⟩ := packets.peels P hx
  have hseed : (path.hops i).hintSeed = packetDeriveHintSeed P master := by
    rw [hhop]
    rfl
  rw [hseed] at hhint
  by_cases hin : g.InWindow sessionGuard x
  · obtain ⟨f, hf, hj, hd, hc, hkeys, hgen⟩ := sim.found hideal hx hin
    have hfind : sessionFind t (outerHint (packets.packet x)) now
        = (some f, Function.update t f.idx { t f.idx with lastActiveMs := now }) := by
      rw [hhint]
      simp only [sessionFind, hf]
    have hall := sim.keys
    obtain ⟨out, hpeel⟩ := hpeels pad
    have henc : f.keys.headerEncKey = (path.hops i).headerEncKey := by
      rw [hkeys, hhop]
      exact congrArg Prod.fst hall
    have hmac : f.keys.headerMacKey = (path.hops i).headerMacKey := by
      rw [hkeys, hhop]
      exact congrArg (fun k => k.2.1) hall
    rw [← henc, ← hmac] at hpeel
    obtain ⟨htable, hsent⟩ := handleData_of_found P hopDecoy hfind hpeel rfl
    obtain ⟨hsim, haccepts⟩ := sim.checked now hx hj hd hc hgen hin rfl
    rw [htable, hsent]
    refine ⟨hsim, fun h => haccepts.mp h.1, fun hacc hdecoy hallowed => ?_⟩
    exact ⟨haccepts.mpr hacc, fun h => Bool.false_ne_true (hdecoy.symm.trans h.1), hallowed⟩
  · have hf := sim.not_found hideal hx hin
    have hno : ¬ g.Accepts sessionGuard x := fun h => hin h.1
    have hfind : sessionFind t (outerHint (packets.packet x)) now = (none, t) := by
      rw [hhint]
      simp only [sessionFind, hf]
    have hg : g.offer sessionGuard x = g := by
      simp only [Guard.offer, if_neg hin, if_neg hno]
    have hdata : handleData P hopDecoy t (packets.packet x) now pad = (none, t) := by
      simp only [handleData, hfind]
    rw [hdata, hg]
    exact ⟨sim, fun h => absurd h (by simp), fun h => absurd h hno⟩

end

variable (packets)

/-- A fresh session is the initial guard. -/
theorem simulates_extend {role : UInt8} {now : Nat}
    {t t₀ : Table} (hext : extendSession P t master role now = some (j, t₀))
    (hforeign : ∀ k, k ≠ j → (t₀ k).inUse = true → ∀ d w c, c < 2 ^ 64 →
      (t₀ k).hintWindow d w ≠ packetDeriveHopHint P (packetDeriveHintSeed P master) c) :
    Simulates master j packets t₀ .initial := by
  obtain ⟨sess, rfl, huse, hh, hkeys⟩ := extendSession_eq_some P hext
  obtain ⟨sess', heq, -, -, hseen, -⟩ := extendSession_allocated P hext
  have hsess : sess = sess' := by
    have h := congrFun heq j
    rwa [Function.update_self, Function.update_self] at h
  rw [← hsess] at hseen
  constructor
  · rwa [Function.update_self]
  · rwa [Function.update_self]
  · rw [Function.update_self, hh]
    rfl
  · rw [Function.update_self, hh]
    exact ⟨_, HintOk.init P _, fun d => rfl⟩
  · intro d m hm
    cases hm
  · rw [Function.update_self, hseen]
    rfl
  · intro x hx
    cases hx
  · exact hforeign

/-- A packet or a copy of it reaches the relay. -/
structure Arrival where
  stamp : Domain × Nat
  now : Nat
  pad : WirePacket

def arrive (hopDecoy : Bool) (t : Table) (a : Arrival) : Option (UInt16 × WirePacket) × Table :=
  handleData P hopDecoy t (packets.packet a.stamp) a.now a.pad

def arriveStep (hopDecoy : Bool) (t : Table) (a : Arrival) : Table :=
  (arrive packets hopDecoy t a).2

def Forwards (hopDecoy : Bool) (t : Table) (a : Arrival) : Prop :=
  (arrive packets hopDecoy t a).1.isSome

variable {packets}

theorem Simulates.run (sim : Simulates master j packets t g)
    (hideal : HintsDistinct P fun m => m = master) (hhop : path.hops i = deriveHop P master)
    (hopDecoy : Bool) (as : List Arrival) (hclient : ∀ a ∈ as, FromClient a.stamp) :
    Simulates master j packets (Machine.run (arriveStep packets hopDecoy) as t)
      (Machine.run (Guard.offer sessionGuard) (as.map Arrival.stamp) g) := by
  induction as generalizing t g with
  | nil => exact sim
  | cons a as ih =>
    have hstep := (sim.handle hideal hhop (hclient a List.mem_cons_self) hopDecoy a.now a.pad).1
    exact ih hstep fun b hb => hclient b (List.mem_cons_of_mem a hb)

/-- Two copies of a packet that are both forwarded have at least 962 distinct packets of the
other counter domain between them. -/
theorem copies_forwarded_apart (hideal : HintsDistinct P fun m => m = master)
    (hhop : path.hops i = deriveHop P master) {role : UInt8} {now : Nat} {t t₀ : Table}
    (hext : extendSession P t master role now = some (j, t₀))
    (hforeign : ∀ k, k ≠ j → (t₀ k).inUse = true → ∀ d w c, c < 2 ^ 64 →
      (t₀ k).hintWindow d w ≠ packetDeriveHopHint P (packetDeriveHintSeed P master) c)
    (hopDecoy : Bool) (before between : List Arrival) (first copy : Arrival)
    (hcopy : copy.stamp = first.stamp)
    (hclient : ∀ a ∈ before ++ first :: between, FromClient a.stamp)
    (hfirst : Forwards packets hopDecoy
      (Machine.run (arriveStep packets hopDecoy) before t₀) first)
    (hagain : Forwards packets hopDecoy
      (Machine.run (arriveStep packets hopDecoy) (before ++ first :: between) t₀) copy) :
    replayWindow - 2 * (hintSafetyMargin - 1) ≤
      (((between.map Arrival.stamp).filter fun y => y.1 ≠ first.stamp.1).dedup).length := by
  have hx : FromClient first.stamp := hclient first (by simp)
  have sim := (simulates_extend packets hext hforeign).run hideal hhop hopDecoy before
    fun a ha => hclient a (List.mem_append_left _ ha)
  have simEnd := (simulates_extend packets hext hforeign).run hideal hhop hopDecoy
    (before ++ first :: between) hclient
  have hacc := (sim.handle hideal hhop hx hopDecoy first.now first.pad).2.1 hfirst
  have hacc' := (simEnd.handle hideal hhop (hcopy ▸ hx) hopDecoy copy.now copy.pad).2.1 hagain
  rw [hcopy, List.map_append, Machine.run_append] at hacc'
  exact accepted_twice ((ok_initial sessionGuard).run _) _ hacc hacc'

end

/-! A run that forwards one packet twice: a real packet, 1024 cover packets, the copy. -/

def samplePacket (x : Domain × Nat) : Option WirePacket :=
  packetSphinxBuildEx .sample .sample [7] (pktReal ||| pktDestService) x.2 (-1)
    ⟨Bytes.zero _, fun _ => bigEndian nonceBytes x.2⟩

theorem samplePacket_isSome (x : Domain × Nat) : (samplePacket x).isSome := by
  obtain ⟨sect, -, hsect, -⟩ := e2eSection_fields .sample .sample [7] (pktReal ||| pktDestService)
    (Bytes.zero _) (by decide)
  obtain ⟨pkt, hbuild, -⟩ := carries_build .sample x.2 .sample [7] (pktReal ||| pktDestService)
    (-1) ⟨Bytes.zero _, fun _ => bigEndian nonceBytes x.2⟩ sect (by decide) (by decide) hsect
  rw [samplePacket, hbuild]
  rfl

def samplePackets : ClientPackets .sample .sample 0 where
  packet x := (samplePacket x).getD (Bytes.zero _)
  nonce x := bigEndian nonceBytes x.2
  built x _ := by
    obtain ⟨pkt, hpkt⟩ := Option.isSome_iff_exists.mp (samplePacket_isSome x)
    refine ⟨_, _, _, _, fun _ => Bytes.zero _, pkt, hpkt, ?_, rfl⟩
    rw [hpkt]
    rfl
  fresh x y hx hy heq := by
    obtain ⟨hlt, hreal, hcover⟩ := fromClient_range hx
    obtain ⟨hlt', hreal', hcover'⟩ := fromClient_range hy
    have hc : x.2 = y.2 := bigEndian_inj (by omega) (by omega) heq
    refine Prod.ext ?_ hc
    -- the two domains share no counter
    cases hd : x.1 <;> cases hd' : y.1
    · rfl
    · have := hreal hd
      have := hcover' hd'
      omega
    · have := hcover hd
      have := hreal' hd'
      omega
    · rfl

def firstArrival : Arrival := ⟨(.real, 0), 0, Bytes.zero _⟩

def coverArrivals : List Arrival :=
  (consecutive sessionGuard .cover replayWindow).map fun x => ⟨x, 0, Bytes.zero _⟩

theorem coverArrivals_stamps :
    coverArrivals.map Arrival.stamp = consecutive sessionGuard .cover replayWindow := by
  rw [coverArrivals, List.map_map]
  exact List.map_id _

theorem floodClient : ∀ a ∈ firstArrival :: coverArrivals, FromClient a.stamp := by
  intro a ha
  rcases List.mem_cons.mp ha with rfl | ha
  · exact ⟨⟨0, 0, 0⟩, by decide, rfl⟩
  · obtain ⟨x, hx, rfl⟩ := List.mem_map.mp ha
    obtain ⟨n, hn, rfl⟩ := List.mem_map.mp hx
    have hlt : n < 1024 := List.mem_range.mp hn
    refine (fromClient_iff _).mpr ?_
    simp only [sessionGuard, Domain.first, hintCoverCounterBase]
    omega

theorem floodForwards : ∃ j t₀,
    extendSession .sample (fun _ => zeroEntry) (sampleMaster 0) sessionRoleA 0 = some (j, t₀) ∧
      (∀ k, k ≠ j → (t₀ k).inUse = false) ∧
      Forwards samplePackets false t₀ firstArrival ∧
      Forwards samplePackets false
        (Machine.run (arriveStep samplePackets false) (firstArrival :: coverArrivals) t₀)
        firstArrival := by
  have hsome :
      (extendSession .sample (fun _ => zeroEntry) (sampleMaster 0) sessionRoleA 0).isSome := by
    decide +kernel
  obtain ⟨⟨j, t₀⟩, hext⟩ := Option.isSome_iff_exists.mp hsome
  have hunused : ∀ k, k ≠ j → (t₀ k).inUse = false := by
    intro k hk
    obtain ⟨sess, rfl, -⟩ := extendSession_eq_some .sample hext
    rw [Function.update_of_ne hk]
    rfl
  have hideal : HintsDistinct .sample fun m => m = sampleMaster 0 := fun m m' hm hm' =>
    hintsDistinct_sample m m' ⟨0, hm⟩ ⟨0, hm'⟩
  have hhop : SphinxPath.sample.hops 0 = deriveHop .sample (sampleMaster 0) := rfl
  have hallowed : isAllowedNextHop localhostBytes (nextHopPort .sample 0) := by decide
  have sim := simulates_extend samplePackets hext fun k hk huse => by
    rw [hunused k hk] at huse
    cases huse
  have simEnd := sim.run hideal hhop false (firstArrival :: coverArrivals) floodClient
  have hclient : FromClient firstArrival.stamp := floodClient _ List.mem_cons_self
  rw [List.map_cons, coverArrivals_stamps] at simEnd
  obtain ⟨hacc, hagain⟩ := accepted_again (p := sessionGuard) (d := Domain.real) (e := .cover)
    (by decide) (by decide) (by decide)
  exact ⟨j, t₀, hext, hunused,
    (sim.handle hideal hhop hclient false 0 _).2.2 hacc rfl hallowed,
    (simEnd.handle hideal hhop hclient false 0 _).2.2 hagain rfl hallowed⟩

theorem copy_forwarded_twice : ∃ j t₀,
    extendSession .sample (fun _ => zeroEntry) (sampleMaster 0) sessionRoleA 0 = some (j, t₀) ∧
      (∀ a ∈ firstArrival :: coverArrivals, FromClient a.stamp) ∧
      Forwards samplePackets false t₀ firstArrival ∧
      Forwards samplePackets false
        (Machine.run (arriveStep samplePackets false) (firstArrival :: coverArrivals) t₀)
        firstArrival := by
  obtain ⟨j, t₀, hext, -, hfirst, hagain⟩ := floodForwards
  exact ⟨j, t₀, hext, floodClient, hfirst, hagain⟩

theorem copies_forwarded_apart_flood :
    962 ≤ (((coverArrivals.map Arrival.stamp).filter fun y => y.1 ≠ .real).dedup).length := by
  obtain ⟨j, t₀, hext, hunused, hfirst, hagain⟩ := floodForwards
  have hideal : HintsDistinct .sample fun m => m = sampleMaster 0 := fun m m' hm hm' =>
    hintsDistinct_sample m m' ⟨0, hm⟩ ⟨0, hm'⟩
  have hhop : SphinxPath.sample.hops 0 = deriveHop .sample (sampleMaster 0) := rfl
  have hforeign : ∀ k, k ≠ j → (t₀ k).inUse = true → ∀ d w c, c < 2 ^ 64 →
      (t₀ k).hintWindow d w
        ≠ packetDeriveHopHint .sample (packetDeriveHintSeed .sample (sampleMaster 0)) c := by
    intro k hk huse
    rw [hunused k hk] at huse
    cases huse
  exact copies_forwarded_apart hideal hhop hext hforeign false [] coverArrivals
    firstArrival firstArrival rfl floodClient hfirst hagain

end AnonSecNet.MixNode
