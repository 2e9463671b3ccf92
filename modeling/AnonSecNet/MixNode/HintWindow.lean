import AnonSecNet.MixNode.HighWater

/-! The hint windows when packets are processed one at a time: `session_find`, and once the MAC
has verified `session_confirm_hint_match`, before the next lookup. -/
namespace AnonSecNet.MixNode
open Octets Machine
variable (P : Primitives)

/-- The table, and the counters confirmed in each slot since it was last allocated. -/
structure Serial where
  table : Table
  confirmed : Fin maxSessions → Domain → List Nat

def Serial.initial : Serial := ⟨fun _ => zeroEntry, fun _ _ => []⟩

/-- A packet is confirmed when its MAC verifies. -/
inductive SerialAct where
  | extend (master : AesKey) (role : UInt8) (now : Nat)
  | packet (hint : Hint) (verified : Bool) (now : Nat)

/-- The counter recorded for a packet is the one its window slot stands for. -/
def serialStep (s : Serial) : SerialAct → Serial
  | .extend master role now =>
    match extendSession P s.table master role now with
    | none => s
    | some (i, t) => ⟨t, Function.update s.confirmed i fun _ => []⟩
  | .packet hint verified now =>
    match sessionFind s.table hint now with
    | (none, t) => { s with table := t }
    | (some f, t) =>
      if verified then
        { table := sessionConfirmHintMatch P t f
          confirmed := Function.update s.confirmed f.idx
            (Function.update (s.confirmed f.idx) f.domain
              ((t f.idx).matchedAbs f.domain f.windowIdx :: s.confirmed f.idx f.domain)) }
      else { s with table := t }

/-- `max(b0, hw - HINT_SAFETY_MARGIN + 1)`, or `b0` before any match. -/
def baseFor (d : Domain) (confirmed : List Nat) : Nat :=
  confirmed.max?.elim d.first fun hw => max d.first (hw + 1 - hintSafetyMargin)


/-! One hint state against the counters confirmed in it. -/

structure WindowOk (h : HintState) (confirmed : Domain → List Nat) : Prop where
  window : ∀ d w, h.hintWindow d w = packetDeriveHopHint P h.hintSeed (h.hintBase d + w)
  base : ∀ d, h.hintBase d = baseFor d (confirmed d)
  marked : ∀ d, h.hintHighWater d = noHighWater ∨ desiredBase (h.hintHighWater d) ≤ h.hintBase d

theorem baseFor_cons (d : Domain) (c : Nat) (confirmed : List Nat) :
    baseFor d (c :: confirmed) = max (baseFor d confirmed) (desiredBase c) := by
  unfold baseFor
  rw [List.max?_cons, desiredBase_eq]
  cases confirmed.max? with
  | none =>
    simp only [Option.elim_none, Option.elim_some, hintSafetyMargin]
    omega
  | some m =>
    simp only [Option.elim_some, hintSafetyMargin]
    omega

/-- With a mark that the base has caught up with, only the new counter can move the base. -/
theorem max_desiredBase_raise {base m : Nat} (hm : m = noHighWater ∨ desiredBase m ≤ base)
    (c : Nat) :
    max base (desiredBase (raiseHighWater m c)) = max base (desiredBase c) := by
  rcases hm with rfl | hm
  · rw [raiseHighWater_none]
  · unfold raiseHighWater
    split
    · rfl
    · rename_i hnot
      have hle : c ≤ m := Nat.le_of_not_lt fun hlt => hnot (Or.inr hlt)
      rw [desiredBase_eq] at hm ⊢
      rw [desiredBase_eq]
      omega

theorem WindowOk.init (seed : AesKey) : WindowOk P (sessionInitHintWindow P seed) fun _ => [] where
  window _ _ := rfl
  base _ := rfl
  marked _ := Or.inl rfl

theorem WindowOk.advance {h : HintState} {confirmed : Domain → List Nat}
    (ok : WindowOk P h confirmed) (d : Domain) (w : Fin hintWindow) :
    WindowOk P (sessionAdvanceHintWindow P h d w)
      (Function.update confirmed d (h.matchedAbs d w :: confirmed d)) where
  window e v := by rw [window_advance P d w ok.window, hintSeed_advance]
  base e := by
    rw [hintBase_advance]
    by_cases he : e = d
    · subst he
      rw [Function.update_self, Function.update_self, baseFor_cons,
        max_desiredBase_raise (ok.marked e), ok.base]
    · rw [Function.update_of_ne he, Function.update_of_ne he, ok.base]
  marked e := by
    rw [hintBase_advance, hintHighWater_advance]
    by_cases he : e = d
    · subst he
      rw [Function.update_self, Function.update_self]
      exact Or.inr (le_max_right _ _)
    · rw [Function.update_of_ne he, Function.update_of_ne he]
      exact ok.marked e

/-! Which counters are found. -/

/-- The hints of one seed are told apart by their counters. -/
def CountersDistinct : Prop :=
  ∀ seed c c', c < 2 ^ 64 → c' < 2 ^ 64 →
    packetDeriveHopHint P seed c = packetDeriveHopHint P seed c' → c = c'

variable {P}

theorem WindowOk.holds_iff {h : HintState} {confirmed : Domain → List Nat}
    (ok : WindowOk P h confirmed) (hfree : CountersDistinct P) {c : Nat} (hc : c < 2 ^ 64)
    (d : Domain) (w : Fin hintWindow) :
    h.hintWindow d w = packetDeriveHopHint P h.hintSeed c ↔ h.matchedAbs d w = c := by
  have hwindow : h.hintWindow d w = packetDeriveHopHint P h.hintSeed (h.matchedAbs d w) :=
    (ok.window d w).trans (packetDeriveHopHint_mod P h.hintSeed _).symm
  rw [hwindow]
  constructor
  · exact hfree h.hintSeed _ _ (Nat.mod_lt _ (by decide)) hc
  · exact congrArg _

theorem matchedAbs_inj {h : HintState} {d : Domain} {v w : Fin hintWindow}
    (heq : h.matchedAbs d v = h.matchedAbs d w) : v = w := by
  have hv : v.val < 64 := v.isLt
  have hw : w.val < 64 := w.isLt
  unfold HintState.matchedAbs at heq
  apply Fin.ext
  omega

/-- A hint in the real window is not looked for in the cover window. -/
theorem matchHint_cover {h : HintState} {hint : Hint} {w : Fin hintWindow}
    (hm : matchHint h hint = some (.cover, w)) (v : Fin hintWindow) :
    h.hintWindow .real v ≠ hint := by
  intro hv
  have hreal : (Fin.find? fun u => decide (h.hintWindow .real u = hint)).isSome :=
    Fin.isSome_find?_of_eq_true (decide_eq_true hv)
  obtain ⟨u, hu⟩ := Option.isSome_iff_exists.mp hreal
  unfold matchHint at hm
  rw [hu] at hm
  cases hm

/-- The counter is one of those of the domain's window; a counter of both windows belongs to the
real one. -/
def HintState.Covers (h : HintState) (d : Domain) (w : Fin AnonSecNet.hintWindow) (c : Nat) :
    Prop :=
  h.matchedAbs d w = c ∧ (d = .cover → ∀ v : Fin AnonSecNet.hintWindow, h.matchedAbs .real v ≠ c)

theorem WindowOk.matchHint_iff {h : HintState} {confirmed : Domain → List Nat}
    (ok : WindowOk P h confirmed) (hfree : CountersDistinct P) {c : Nat} (hc : c < 2 ^ 64)
    (d : Domain) (w : Fin hintWindow) :
    matchHint h (packetDeriveHopHint P h.hintSeed c) = some (d, w) ↔ h.Covers d w c := by
  have hcovers : ∀ d w, matchHint h (packetDeriveHopHint P h.hintSeed c) = some (d, w) →
      h.Covers d w c := by
    intro d w hm
    refine ⟨(ok.holds_iff hfree hc d w).mp (mem_matchHint hm), ?_⟩
    rintro rfl v hv
    exact matchHint_cover hm v ((ok.holds_iff hfree hc .real v).mpr hv)
  refine ⟨hcovers d w, fun ⟨hw, hreal⟩ => ?_⟩
  have hsome := matchHint_isSome ((ok.holds_iff hfree hc d w).mpr hw)
  obtain ⟨⟨d', w'⟩, hm⟩ := Option.isSome_iff_exists.mp hsome
  obtain ⟨hw', hreal'⟩ := hcovers d' w' hm
  cases d with
  | real =>
    cases d' with
    | real => rw [hm, matchedAbs_inj (hw'.trans hw.symm)]
    | cover => exact absurd hw (hreal' rfl w)
  | cover =>
    cases d' with
    | real => exact absurd hw' (hreal rfl w')
    | cover => rw [hm, matchedAbs_inj (hw'.trans hw.symm)]

/-! One step. -/

variable (P)

/-- What a packet does to a slot: nothing its windows see, or the confirmation of the packet found
in it. -/
inductive PacketMoves (s : Serial) (hint : Hint) (i : Fin maxSessions) (s' : Serial) : Prop where
  | kept (use : (s'.table i).inUse = (s.table i).inUse)
      (hints : (s'.table i).toHintState = (s.table i).toHintState)
      (log : s'.confirmed i = s.confirmed i)
  | confirmed (f : Found) (found : firstFound s.table hint = some f) (slot : f.idx = i)
      (use : (s.table i).inUse = true)
      (hints : (s'.table i).toHintState
        = sessionAdvanceHintWindow P (s.table i).toHintState f.domain f.windowIdx)
      (log : s'.confirmed i = Function.update (s.confirmed i) f.domain
        ((s.table i).matchedAbs f.domain f.windowIdx :: s.confirmed i f.domain))

theorem sameSession_found {t t' : Table} {hint : Hint} {now : Nat} {f : Found}
    (h : sessionFind t hint now = (some f, t')) : SameSession t' f.idx f.generation := by
  obtain ⟨hat, rfl⟩ := sessionFind_eq_some h
  obtain ⟨-, huse, -, -, hgen⟩ := foundAt_eq_some hat
  unfold SameSession
  rw [Function.update_self]
  exact ⟨huse, hgen.symm⟩

/-- The confirmation of a packet right behind its lookup. -/
theorem confirm_found {t t' : Table} {hint : Hint} {now : Nat} {f : Found}
    (h : sessionFind t hint now = (some f, t')) :
    sessionConfirmHintMatch P t' f = Function.update t f.idx
      { t f.idx with
        lastActiveMs := now
        toHintState := sessionAdvanceHintWindow P (t f.idx).toHintState f.domain f.windowIdx } := by
  have hsame := sameSession_found h
  obtain ⟨-, rfl⟩ := sessionFind_eq_some h
  unfold sessionConfirmHintMatch
  rw [if_pos hsame, Function.update_self, Function.update_idem]

theorem PacketMoves.other {s s' : Serial} {hint : Hint} {i j : Fin maxSessions} (hij : i ≠ j)
    {sess : SessionEntry} {log : Domain → List Nat}
    (htable : s'.table = Function.update s.table j sess)
    (hlog : s'.confirmed = Function.update s.confirmed j log) : PacketMoves P s hint i s' := by
  refine .kept ?_ ?_ ?_
  · rw [htable, Function.update_of_ne hij]
  · rw [htable, Function.update_of_ne hij]
  · rw [hlog, Function.update_of_ne hij]

theorem serialStep_packet (s : Serial) (hint : Hint) (verified : Bool) (now : Nat)
    (i : Fin maxSessions) :
    PacketMoves P s hint i (serialStep P s (.packet hint verified now)) := by
  simp only [serialStep]
  split
  · rename_i t hfind
    unfold sessionFind at hfind
    split at hfind
    · cases hfind
      exact .kept rfl rfl rfl
    · cases hfind
  · rename_i f t hfind
    have hconfirm := confirm_found P hfind
    have hfound : firstFound s.table hint = some f := by rw [← sessionFind_fst, hfind]
    obtain ⟨hat, rfl⟩ := sessionFind_eq_some hfind
    have huse := (foundAt_eq_some hat).2.1
    by_cases hi : i = f.idx
    · subst hi
      split
      · refine .confirmed f hfound rfl huse ?_ ?_
        · dsimp only
          rw [hconfirm, Function.update_self]
        · simp only [Function.update_self]
      · refine .kept ?_ ?_ rfl
        · dsimp only
          rw [Function.update_self]
        · dsimp only
          rw [Function.update_self]
    · split
      · exact .other P hi hconfirm rfl
      · exact .other P hi rfl (Function.update_eq_self f.idx s.confirmed).symm

/-! Runs. -/

/-- The windows of a session, the counters that are found in it, and what the next packet can
change. -/
structure WindowExact (s : Serial) (i : Fin maxSessions) : Prop where
  window : ∀ d w, (s.table i).hintWindow d w
    = packetDeriveHopHint P (s.table i).hintSeed ((s.table i).hintBase d + w)
  base : ∀ d, (s.table i).hintBase d = baseFor d (s.confirmed i d)
  found : ∀ c < 2 ^ 64, ∀ now,
    (∀ j, j ≠ i → foundAt s.table (packetDeriveHopHint P (s.table i).hintSeed c) j = none) →
    ∀ d w, (∃ f,
        (sessionFind s.table (packetDeriveHopHint P (s.table i).hintSeed c) now).1 = some f ∧
        f.idx = i ∧ f.domain = d ∧ f.windowIdx = w) ↔ (s.table i).Covers d w c
  accepted : ∀ c < 2 ^ 64, ∀ now,
    (∀ j, j ≠ i → foundAt s.table (packetDeriveHopHint P (s.table i).hintSeed c) j = none) →
    ((∃ f, (sessionFind s.table (packetDeriveHopHint P (s.table i).hintSeed c) now).1 = some f ∧
        f.idx = i) ↔ ∃ d, ∃ w : Fin hintWindow, (s.table i).matchedAbs d w = c)
  rises : ∀ hint verified now d, (s.table i).hintBase d
    ≤ ((serialStep P s (.packet hint verified now)).table i).hintBase d
  apart : ∀ hint verified now d,
    (∀ f, firstFound s.table hint = some f → f.idx = i → f.domain ≠ d) →
    let sess := (serialStep P s (.packet hint verified now)).table i
    sess.hintBase d = (s.table i).hintBase d ∧ sess.hintWindow d = (s.table i).hintWindow d ∧
      sess.hintHighWater d = (s.table i).hintHighWater d

def SerialInv (s : Serial) : Prop :=
  ∀ i, (s.table i).inUse = true → WindowOk P (s.table i).toHintState (s.confirmed i)

theorem SerialInv.initial : SerialInv P Serial.initial := by
  intro i huse
  cases huse

theorem SerialInv.step {s : Serial} (inv : SerialInv P s) (act : SerialAct) :
    SerialInv P (serialStep P s act) := by
  intro i huse
  cases act with
  | extend master role now =>
    simp only [serialStep] at huse ⊢
    split at huse
    · exact inv i huse
    · rename_i j t hext
      obtain ⟨sess, rfl, -, hh, -⟩ := extendSession_eq_some P hext
      dsimp only at huse ⊢
      by_cases hi : i = j
      · subst hi
        rw [Function.update_self, Function.update_self, hh]
        exact WindowOk.init P _
      · rw [Function.update_of_ne hi] at huse ⊢
        rw [Function.update_of_ne hi]
        exact inv i huse
  | packet hint verified now =>
    cases serialStep_packet P s hint verified now i with
    | kept use hints log =>
      rw [hints, log]
      exact inv i (use ▸ huse)
    | confirmed f found slot use hints log =>
      rw [hints, log]
      exact (inv i use).advance P f.domain f.windowIdx

variable {P}

theorem SerialInv.found {s : Serial} (inv : SerialInv P s) (hfree : CountersDistinct P)
    {i : Fin maxSessions} (huse : (s.table i).inUse = true) {c : Nat} (hc : c < 2 ^ 64) (now : Nat)
    (hothers : ∀ j, j ≠ i → foundAt s.table (packetDeriveHopHint P (s.table i).hintSeed c) j = none)
    (d : Domain) (w : Fin hintWindow) :
    (∃ f, (sessionFind s.table (packetDeriveHopHint P (s.table i).hintSeed c) now).1 = some f ∧
      f.idx = i ∧ f.domain = d ∧ f.windowIdx = w) ↔ (s.table i).Covers d w c := by
  rw [← (inv i huse).matchHint_iff hfree hc d w]
  constructor
  · rintro ⟨f, hf, rfl, rfl, rfl⟩
    rw [sessionFind_fst] at hf
    obtain ⟨j, hj, -⟩ := firstFound_eq_some hf
    obtain ⟨rfl, -⟩ := foundAt_eq_some hj
    unfold foundAt at hj
    rw [if_pos huse] at hj
    obtain ⟨m, hm, hmf⟩ := Option.map_eq_some_iff.mp hj
    rw [hm, ← hmf]
  · intro hm
    have hhere : foundAt s.table (packetDeriveHopHint P (s.table i).hintSeed c) i
        = some ⟨i, (s.table i).keys, d, w, (s.table i).generation⟩ := by
      unfold foundAt
      rw [if_pos huse, hm, Option.map_some]
    exact ⟨_, (sessionFind_fst _ _ _).trans (firstFound_of_alone hhere hothers), rfl, rfl, rfl⟩

theorem exists_covers_iff (h : HintState) (c : Nat) :
    (∃ d w, h.Covers d w c) ↔ ∃ d, ∃ w : Fin hintWindow, h.matchedAbs d w = c := by
  constructor
  · rintro ⟨d, w, hw, -⟩
    exact ⟨d, w, hw⟩
  · rintro ⟨d, w, hw⟩
    by_cases hreal : ∃ v : Fin hintWindow, h.matchedAbs .real v = c
    · obtain ⟨v, hv⟩ := hreal
      exact ⟨.real, v, hv, fun hd => nomatch hd⟩
    · exact ⟨d, w, hw, fun _ v hv => hreal ⟨v, hv⟩⟩

variable (P)

/-- A base only moves up. -/
theorem packet_rises (s : Serial) (i : Fin maxSessions) (hint : Hint) (verified : Bool) (now : Nat)
    (d : Domain) :
    (s.table i).hintBase d ≤ ((serialStep P s (.packet hint verified now)).table i).hintBase d := by
  cases serialStep_packet P s hint verified now i with
  | kept use hints log => rw [hints]
  | confirmed f found slot use hints log =>
    rw [hints, hintBase_advance]
    by_cases hd : d = f.domain
    · subst hd
      rw [Function.update_self]
      exact le_max_left _ _
    · rw [Function.update_of_ne hd]

/-- A packet that is not found in a domain of the session leaves the domain alone. -/
theorem packet_apart (s : Serial) (i : Fin maxSessions) (hint : Hint) (verified : Bool) (now : Nat)
    (d : Domain) (h : ∀ f, firstFound s.table hint = some f → f.idx = i → f.domain ≠ d) :
    let sess := (serialStep P s (.packet hint verified now)).table i
    sess.hintBase d = (s.table i).hintBase d ∧ sess.hintWindow d = (s.table i).hintWindow d ∧
      sess.hintHighWater d = (s.table i).hintHighWater d := by
  cases serialStep_packet P s hint verified now i with
  | kept use hints log =>
    dsimp only
    rw [hints]
    exact ⟨rfl, rfl, rfl⟩
  | confirmed f found slot use hints log =>
    have hd : d ≠ f.domain := (h f found slot).symm
    dsimp only
    rw [hints]
    obtain ⟨-, hadv⟩ | ⟨-, hadv⟩ :=
      advance_cases P (s.table i).toHintState f.domain f.windowIdx _ rfl
    · rw [hadv]
      exact ⟨rfl, rfl, Function.update_of_ne hd _ _⟩
    · rw [hadv]
      exact ⟨Function.update_of_ne hd _ _, Function.update_of_ne hd _ _,
        Function.update_of_ne hd _ _⟩

/-- Packets one at a time: in every state of every run, the windows of every session are the
hints from its base on, the base follows the largest counter confirmed, and exactly the counters
in a window are found. -/
theorem hint_windows_exact (hfree : CountersDistinct P) (acts : List SerialAct) :
    Along (serialStep P) (fun s => ∀ i, (s.table i).inUse = true → WindowExact P s i) acts
      Serial.initial := by
  have hrun : ∀ (acts : List SerialAct) (s : Serial), SerialInv P s →
      Along (serialStep P) (SerialInv P) acts s := by
    intro acts
    induction acts with
    | nil => exact fun s inv => inv
    | cons act acts ih => exact fun s inv => ⟨inv, ih _ (inv.step P act)⟩
  refine (hrun acts _ (SerialInv.initial P)).mono (serialStep P) fun s inv i huse => ?_
  exact {
    window := (inv i huse).window
    base := (inv i huse).base
    found := fun c hc now hothers d w => inv.found hfree huse hc now hothers d w
    accepted := fun c hc now hothers => by
      rw [← exists_covers_iff]
      simp only [← inv.found hfree huse hc now hothers]
      constructor
      · rintro ⟨f, hf, hi⟩
        exact ⟨f.domain, f.windowIdx, f, hf, hi, rfl, rfl⟩
      · rintro ⟨d, w, f, hf, hi, -, -⟩
        exact ⟨f, hf, hi⟩
    rises := packet_rises P s i
    apart := packet_apart P s i }

/-! The handler threads of the node, when every packet is confirmed before the next one comes in. -/

/-- The rest of a run. There is room for a window behind every counter. -/
inductive OneAtATime : NodeState → List NodeAct → Prop where
  | nil (s : NodeState) : OneAtATime s []
  | extend {s : NodeState} {acts : List NodeAct} (master : AesKey) (role : UInt8) (now : Nat)
      (rest : OneAtATime (nodeStep P s (.extend master role now)) acts) :
      OneAtATime s (.extend master role now :: acts)
  | checkNonce {s : NodeState} {acts : List NodeAct} (k : Nat)
      (rest : OneAtATime (nodeStep P s (.checkNonce k)) acts) :
      OneAtATime s (.checkNonce k :: acts)
  | packet {s : NodeState} {acts : List NodeAct} (mode : Mode) (wire pad : WirePacket) (now : Nat)
      (d : Domain) (c : Nat) (room : c + hintWindow ≤ d.first + 2 ^ 62)
      (rest : OneAtATime
        (nodeStep P (nodeStep P s (.receive mode wire pad now d c)) (.confirm s.threads.length))
        acts) :
      OneAtATime s (.receive mode wire pad now d c :: .confirm s.threads.length :: acts)

/-- The same of the counters confirmed so far. -/
def Roomy (log : Domain → List Nat) : Prop :=
  ∀ d, ∀ c ∈ log d, c + hintWindow ≤ d.first + 2 ^ 62

variable {P}

/-- The offset that a packet of the session is found at. -/
theorem HintOk.offset_of_genuine {h : HintState} {log : Domain → List Nat} (ok : HintOk P h log)
    (hroom : Roomy log) (hfree : CountersDistinct P) {hint : Hint} {d : Domain} {c : Nat}
    (hgen : Genuine P h hint d c) {e : Domain} {w : Fin hintWindow}
    (hw : h.hintWindow e w = hint) : e = d ∧ h.hintBase e + w = c := by
  obtain ⟨hhint, hlow, hhigh⟩ := hgen
  have hwidth : w.val < 64 := w.isLt
  have hrange : e.first ≤ h.hintBase e ∧ h.hintBase e + w < e.first + 2 ^ 62 := by
    have hbase := ok.base e
    split at hbase
    · omega
    · rename_i hmark
      rw [ok.marks e] at hbase hmark
      cases hmax : (log e).max? with
      | none => exact absurd (by rw [mark, hmax, Option.getD_none]) hmark
      | some m =>
        have hm := hroom e m (List.max?_mem hmax)
        rw [mark, hmax, Option.getD_some] at hbase
        simp only [hintWindow] at hm
        omega
  have hfirst := first_le e
  have hfirst' := first_le d
  have hcounter : h.hintBase e + w = c := by
    refine hfree h.hintSeed _ _ (by omega) (by omega) ?_
    rw [← ok.window e w, hw, hhint]
  refine ⟨?_, hcounter⟩
  cases e <;> cases d <;> simp [Domain.first, hintCoverCounterBase] at * <;> omega

theorem receive_threads (s : NodeState) (mode : Mode) (wire pad : WirePacket) (now : Nat)
    (d : Domain) (c : Nat) :
    (nodeStep P s (.receive mode wire pad now d c)).threads = s.threads ∨
      ∃ f t nonce, sessionFind s.table (wireHint mode wire) now = (some f, t) ∧
        Genuine P (s.table f.idx).toHintState (wireHint mode wire) d c ∧
        (nodeStep P s (.receive mode wire pad now d c)).threads
          = s.threads ++ [⟨f, nonce, d, c, .verified⟩] := by
  simp only [nodeStep, stepReceive]
  split
  · exact .inl rfl
  · rename_i f t hfind
    split
    · rename_i hgen
      split
      · exact .inl rfl
      · rename_i nonce hnonce
        exact .inr ⟨f, t, nonce, hfind, hgen, rfl⟩
    · exact .inl rfl

theorem roomy_step {s : NodeState} (hroom : ∀ i, Roomy (s.log i)) (a : NodeAct)
    (hconf : ∀ th, Confirms s a th → th.counter + hintWindow ≤ th.domain.first + 2 ^ 62) :
    ∀ i, Roomy ((nodeStep P s a).log i) := by
  intro i d c hmem
  cases nodeStep_effect P s a with
  | quiet idle view log =>
    rw [log] at hmem
    exact hroom i d c hmem
  | fresh idle j seed view log =>
    rw [log] at hmem
    by_cases hij : i = j
    · subst hij
      rw [Function.update_self] at hmem
      cases hmem
    · rw [Function.update_of_ne hij] at hmem
      exact hroom i d c hmem
  | confirmed th conf view log =>
    rw [log] at hmem
    by_cases hij : i = th.found.idx
    · subst hij
      rw [Function.update_self] at hmem
      by_cases hd : d = th.domain
      · subst hd
        rw [Function.update_self] at hmem
        obtain rfl | hmem := List.mem_cons.mp hmem
        · exact hconf th conf
        · exact hroom _ _ c hmem
      · rw [Function.update_of_ne hd] at hmem
        exact hroom _ d c hmem
    · rw [Function.update_of_ne hij] at hmem
      exact hroom i d c hmem

/-- An action that confirms nothing. -/
theorem step_of_not_confirm {s : NodeState} (inv : NodeInv P s) (hroom : ∀ i, Roomy (s.log i))
    {a : NodeAct} (h : ∀ k, a ≠ .confirm k) :
    ConfirmsSafely s a ∧ NodeInv P (nodeStep P s a) ∧ ∀ i, Roomy ((nodeStep P s a).log i) := by
  have hidle : ∀ th, ¬ Confirms s a th := fun th conf => by
    obtain ⟨k, hk, -⟩ := conf
    exact h k hk
  have hsafe : ConfirmsSafely s a := fun th conf => absurd conf (hidle th)
  exact ⟨hsafe, inv.step P a hsafe, roomy_step hroom a fun th conf => absurd conf (hidle th)⟩

/-- The packet that has just come in is confirmed at its own offset. -/
theorem confirm_received {s : NodeState} (inv : NodeInv P s) (hroom : ∀ i, Roomy (s.log i))
    (hfree : CountersDistinct P) (mode : Mode) (wire pad : WirePacket) (now : Nat) (d : Domain)
    (c : Nat) {th : Thread}
    (conf : Confirms (nodeStep P s (.receive mode wire pad now d c)) (.confirm s.threads.length)
      th) :
    (th.domain = d ∧ th.counter = c) ∧
      OffsetSafe
        ((nodeStep P s (.receive mode wire pad now d c)).table th.found.idx).toHintState th := by
  obtain ⟨k, hk, hget, -, huse, -⟩ := conf
  obtain rfl : s.threads.length = k := NodeAct.confirm.inj hk
  obtain hsame | ⟨f, t, nonce, hfind, hgen, hnew⟩ :=
    receive_threads (P := P) s mode wire pad now d c
  · rw [hsame, List.getElem?_eq_none le_rfl] at hget
    cases hget
  · rw [hnew, List.getElem?_concat_length] at hget
    obtain rfl := Option.some.inj hget
    obtain ⟨hat, -⟩ := sessionFind_eq_some hfind
    obtain ⟨-, huse', hwin, -⟩ := foundAt_eq_some hat
    have hview : hintView (nodeStep P s (.receive mode wire pad now d c)).table f.idx
        = hintView s.table f.idx :=
      congrFun (effect_receive P s mode wire pad now d c).1 f.idx
    rw [hintView_of_inUse huse, hintView_of_inUse huse'] at hview
    obtain ⟨hdomain, hcounter⟩ := (inv.hints f.idx _ (hintView_of_inUse huse')).offset_of_genuine
      (hroom f.idx) hfree hgen hwin
    refine ⟨⟨rfl, rfl⟩, .inl ⟨hdomain, ?_⟩⟩
    rw [Option.some.inj hview]
    exact hcounter

/-- Packets that are handled one at a time are all confirmed at a safe offset. -/
theorem OneAtATime.confirmsSafely (hfree : CountersDistinct P) {s : NodeState}
    {acts : List NodeAct} (h : OneAtATime P s acts) (inv : NodeInv P s)
    (hroom : ∀ i, Roomy (s.log i)) : StepsMeet (nodeStep P) ConfirmsSafely acts s := by
  induction h with
  | nil s => trivial
  | extend master role now rest ih =>
    obtain ⟨hsafe, inv', hroom'⟩ := step_of_not_confirm inv hroom
      (a := .extend master role now) nofun
    exact ⟨hsafe, ih inv' hroom'⟩
  | checkNonce k rest ih =>
    obtain ⟨hsafe, inv', hroom'⟩ := step_of_not_confirm inv hroom (a := .checkNonce k) nofun
    exact ⟨hsafe, ih inv' hroom'⟩
  | packet mode wire pad now d c room rest ih =>
    obtain ⟨hsafe, inv', hroom'⟩ := step_of_not_confirm inv hroom
      (a := .receive mode wire pad now d c) nofun
    have hconfirm := @confirm_received P _ inv hroom hfree mode wire pad now d c
    have hsafe' : ConfirmsSafely _ (.confirm _) := fun th conf => (hconfirm conf).2
    refine ⟨hsafe, hsafe', ih (inv'.step P _ hsafe') (roomy_step hroom' _ fun th conf => ?_)⟩
    obtain ⟨hdomain, hcounter⟩ := (hconfirm conf).1
    rw [hdomain, hcounter]
    exact room

/-- So the marks of such a run are exact. -/
theorem OneAtATime.marksExact (hfree : CountersDistinct P) {acts : List NodeAct}
    (h : OneAtATime P .initial acts) :
    Along (nodeStep P) (fun s => MarksExact s ∧ LatePacketsFound P s) acts .initial := by
  have hmeet := h.confirmsSafely hfree (NodeInv.initial P) fun i d c hmem => nomatch hmem
  exact (along_of_stepsMeet (nodeStep P) (NodeInv P) (fun s a inv hsafe => inv.step P a hsafe)
    (NodeInv.initial P) hmeet).mono (nodeStep P) fun s inv =>
      ⟨inv.marksExact P, inv.latePacketsFound P⟩

theorem countersDistinct_sample : CountersDistinct .sample := by
  intro seed c c' hc hc' h
  have hfit : ∀ x, Bytes.fit 8 (bigEndian 8 x).toList = bigEndian 8 x := fun _ => rfl
  have hcounter := congrArg (fun b : Hint => b.read 0 8) h
  simp only [packetDeriveHopHint, Primitives.sample] at hcounter
  rw [Bytes.read_append_fst, Bytes.read_append_fst, hfit, hfit] at hcounter
  exact bigEndian_inj hc hc' hcounter

/-- A session, and the packets 40, 3 and 62 in this order. -/
def outOfOrder : List SerialAct :=
  let packet (counter : Nat) : SerialAct :=
    .packet (packetDeriveHopHint .sample (packetDeriveHintSeed .sample (sampleMaster 0)) counter)
      true 0
  [.extend (sampleMaster 0) sessionRoleA 0, packet 40, packet 3, packet 62]

theorem hint_windows_exact_outOfOrder :
    Along (serialStep .sample) (fun s => ∀ i, (s.table i).inUse = true → WindowExact .sample s i)
      outOfOrder Serial.initial :=
  hint_windows_exact .sample countersDistinct_sample outOfOrder

end AnonSecNet.MixNode
