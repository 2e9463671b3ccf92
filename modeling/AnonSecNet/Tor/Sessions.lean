import AnonSecNet.Foundation.Machine
import AnonSecNet.Foundation.Slots
import AnonSecNet.Tor.Circuit

/-! The session table of `tor_mix_node.c` and the threads that fill it. A slot is taken under the
lock, but filled in behind it, field by field. -/
namespace AnonSecNet.Tor
open Octets Machine

@[simp] abbrev torMaxSessions : Nat := 2048

/-- `TOR_SESSION_TTL_MS`. -/
def torSessionTtlMs : Nat := 5 * 60 * 1000

/-- `tor_session_t`. -/
structure TorSlot extends TorSession where
  nextPort : Nat
  isExit : Bool
  lastActiveMs : Nat

/-- A slot after `memset`. -/
def TorSlot.zero : TorSlot where
  hint := Bytes.zero _
  sessionKey := Bytes.zero _
  inUse := false
  nextPort := 0
  isExit := false
  lastActiveMs := 0

abbrev TorTable : Type := Fin torMaxSessions → TorSlot

/-- The table as the handlers of cells read it; irreducible, so that nothing unrolls it. -/
@[irreducible] def TorTable.sessions (t : TorTable) : List TorSession :=
  List.ofFn fun i => (t i).toTorSession

def torSessionAlloc (t : TorTable) (now : Nat) : Option (Fin torMaxSessions) :=
  Slots.alloc (fun i => (t i).inUse) torSessionTtlMs (fun i => ticksSince now (t i).lastActiveMs)
    fun _ => true

/-- The slot that `session_find` finds and touches. -/
@[irreducible] def torSlotFind (t : TorTable) (hint : List UInt8) : Option (Fin torMaxSessions) :=
  Fin.find? fun i => (t i).inUse && decide ((t i).hint.toList = hint)

/-- What a thread of `handle_extend` has still to write into its slot. -/
inductive ExtendThread where
  | idle
  | hint (slot : Fin torMaxSessions) (hop : Hop) (targetPort : Nat)
  | key (slot : Fin torMaxSessions) (hop : Hop) (targetPort : Nat)
  | ports (slot : Fin torMaxSessions) (targetPort : Nat)

structure TorRelay where
  table : TorTable
  now : Nat
  thread : Nat → ExtendThread

def TorRelay.initial : TorRelay := ⟨fun _ => .zero, 0, fun _ => .idle⟩

inductive TorAct where
  | tick (ms : Nat)
  /-- `session_alloc`, once `crypto_ecdh_derive` has given the key of the hop. -/
  | extend (thread : Nat) (hop : Hop) (targetPort : Nat)
  | fill (thread : Nat)
  | find (hint : List UInt8)
  | reset

def TorRelay.setThread (s : TorRelay) (thread : Nat) (e : ExtendThread) : TorRelay :=
  { s with thread := Function.update s.thread thread e }

def TorRelay.setSlot (s : TorRelay) (i : Fin torMaxSessions) (slot : TorSlot) : TorRelay :=
  { s with table := Function.update s.table i slot }

def torStep (s : TorRelay) : TorAct → TorRelay
  | .tick ms => { s with now := s.now + ms }
  | .extend thread hop targetPort =>
    match s.thread thread, torSessionAlloc s.table s.now with
    | .idle, some i =>
      (s.setSlot i { TorSlot.zero with inUse := true, lastActiveMs := s.now }).setThread thread
        (.hint i hop targetPort)
    | _, _ => s
  | .fill thread =>
    match s.thread thread with
    | .idle => s
    | .hint i hop targetPort =>
      (s.setSlot i { s.table i with hint := hop.hint }).setThread thread (.key i hop targetPort)
    | .key i hop targetPort =>
      (s.setSlot i { s.table i with sessionKey := hop.key }).setThread thread (.ports i targetPort)
    | .ports i targetPort =>
      (s.setSlot i { s.table i with
        nextPort := targetPort
        isExit := decide (targetPort = 0 ∨ targetPort = torPortSg) }).setThread thread .idle
  | .find hint =>
    match torSlotFind s.table hint with
    | some i => s.setSlot i { s.table i with lastActiveMs := s.now }
    | none => s
  | .reset => { s with table := fun _ => .zero }

theorem sessionFind_sessions (t : TorTable) (hint : List UInt8) :
    sessionFind t.sessions hint = (torSlotFind t hint).map fun i => (t i).toTorSession := by
  unfold sessionFind torSlotFind TorTable.sessions
  rw [Fin.find?_eq_find?_finRange, List.ofFn_eq_map, List.find?_map]
  rfl

theorem torSlotFind_eq_some {t : TorTable} {hint : List UInt8} {i : Fin torMaxSessions} :
    torSlotFind t hint = some i ↔ ((t i).inUse = true ∧ (t i).hint.toList = hint) ∧
      ∀ j < i, (t j).inUse = true → (t j).hint.toList ≠ hint := by
  unfold torSlotFind
  rw [Fin.find?_eq_some_iff]
  simp

/-- The session that `handle_extend` leaves when nobody else touches its slot. -/
def extendedSlot (hop : Hop) (targetPort now : Nat) : TorSlot where
  hint := hop.hint
  sessionKey := hop.key
  inUse := true
  nextPort := targetPort
  isExit := decide (targetPort = 0 ∨ targetPort = torPortSg)
  lastActiveMs := now

theorem extend_whole {s : TorRelay} {thread : Nat} (hidle : s.thread thread = .idle)
    {i : Fin torMaxSessions} (halloc : torSessionAlloc s.table s.now = some i) (hop : Hop)
    (targetPort : Nat) :
    run torStep [.extend thread hop targetPort, .fill thread, .fill thread, .fill thread] s
      = s.setSlot i (extendedSlot hop targetPort s.now) := by
  have hback : Function.update s.thread thread .idle = s.thread := by
    rw [← hidle]
    exact Function.update_eq_self thread s.thread
  simp only [run, torStep, hidle, halloc, TorRelay.setSlot, TorRelay.setThread,
    Function.update_self, Function.update_idem]
  rw [hback]
  rfl

/-! The slots in use are the first ones. -/

def TorTable.Packed (t : TorTable) : Prop :=
  ∀ i j : Fin torMaxSessions, j < i → (t i).inUse = true → (t j).inUse = true

/-- A slot behind slots in use may be written at will. -/
theorem TorTable.Packed.update {t : TorTable} (h : t.Packed) {i : Fin torMaxSessions}
    {slot : TorSlot} (hkeep : (t i).inUse = true → slot.inUse = true)
    (hfirst : slot.inUse = true → ∀ j < i, (t j).inUse = true) :
    TorTable.Packed (Function.update t i slot) := by
  intro a b hba ha
  have hne : b ≠ a := hba.ne
  by_cases hai : a = i
  · rw [hai] at ha hba hne
    rw [Function.update_self] at ha
    rw [Function.update_of_ne hne]
    exact hfirst ha b hba
  · rw [Function.update_of_ne hai] at ha
    have hb := h a b hba ha
    by_cases hbi : b = i
    · rw [hbi] at hb ⊢
      rw [Function.update_self]
      exact hkeep hb
    · rw [Function.update_of_ne hbi]
      exact hb

/-- Writing to fields other than `in_use`. -/
theorem TorTable.Packed.write {t : TorTable} (h : t.Packed) (i : Fin torMaxSessions)
    {slot : TorSlot} (hslot : slot.inUse = (t i).inUse) :
    TorTable.Packed (Function.update t i slot) :=
  h.update (fun hi => hslot.trans hi) fun hi j hj => h i j hj (hslot.symm.trans hi)

theorem torStep_packed {s : TorRelay} (h : s.table.Packed) (a : TorAct) :
    (torStep s a).table.Packed := by
  cases a with
  | tick ms => exact h
  | extend thread hop targetPort =>
    dsimp only [torStep]
    split
    · rename_i i _ halloc
      exact h.update (fun _ => rfl) fun _ j hj => Slots.alloc_first halloc hj
    · exact h
  | fill thread =>
    dsimp only [torStep]
    split
    · exact h
    · exact h.write _ rfl
    · exact h.write _ rfl
    · exact h.write _ rfl
  | find hint =>
    dsimp only [torStep]
    split
    · exact h.write _ rfl
    · exact h
  | reset => exact fun i j hji hi => hi

theorem torRun_packed (as : List TorAct) : (run torStep as .initial).table.Packed :=
  run_keeps torStep (fun s => s.table.Packed) (fun _ a hs => torStep_packed hs a) as
    fun _ _ _ hi => hi

/-! A session stays in its slot. -/

/-- The slot that a thread has still to write to. -/
def ExtendThread.slot : ExtendThread → Option (Fin torMaxSessions)
  | .idle => none
  | .hint i _ _ => some i
  | .key i _ _ => some i
  | .ports i _ => some i

/-- The slot is in use and has been filled. -/
structure TorRelay.Settled (s : TorRelay) (i : Fin torMaxSessions) (sess : TorSession) : Prop where
  session : (s.table i).toTorSession = sess
  inUse : sess.inUse = true
  filled : ∀ thread, (s.thread thread).slot ≠ some i

/-- There is a slot left for a new session, and the table is not cleared. -/
def TorRelay.Roomy (s : TorRelay) : TorAct → Prop
  | .extend _ _ _ => ∃ j, (s.table j).inUse = false
  | .reset => False
  | _ => True

theorem TorRelay.Settled.setThread {s : TorRelay} {i : Fin torMaxSessions} {sess : TorSession}
    (h : s.Settled i sess) (thread : Nat) {e : ExtendThread} (he : e.slot ≠ some i) :
    (s.setThread thread e).Settled i sess where
  session := h.session
  inUse := h.inUse
  filled other := by
    change (Function.update s.thread thread e other).slot ≠ some i
    by_cases hne : other = thread
    · rw [hne, Function.update_self]
      exact he
    · rw [Function.update_of_ne hne]
      exact h.filled other

/-- Another slot, or the same session. -/
theorem TorRelay.Settled.setSlot {s : TorRelay} {i : Fin torMaxSessions} {sess : TorSession}
    (h : s.Settled i sess) {k : Fin torMaxSessions} {slot : TorSlot}
    (hslot : k = i → slot.toTorSession = sess) : (s.setSlot k slot).Settled i sess where
  session := by
    change (Function.update s.table k slot i).toTorSession = sess
    by_cases hne : i = k
    · rw [hne, Function.update_self]
      exact hslot hne.symm
    · rw [Function.update_of_ne hne]
      exact h.session
  inUse := h.inUse
  filled := h.filled

theorem torStep_settled {s : TorRelay} {i : Fin torMaxSessions} {sess : TorSession}
    (h : s.Settled i sess) {a : TorAct} (hroomy : s.Roomy a) : (torStep s a).Settled i sess := by
  cases a with
  | tick ms => exact ⟨h.session, h.inUse, h.filled⟩
  | extend thread hop targetPort =>
    dsimp only [torStep]
    split
    · rename_i k _ halloc
      have hne : k ≠ i := by
        intro heq
        cases Slots.alloc_eq_some halloc with
        | inl hfree =>
          have huse : (s.table i).inUse = true := by
            rw [h.session]
            exact h.inUse
          rw [heq, huse] at hfree
          cases hfree
        | inr hfull =>
          obtain ⟨j, hj⟩ := hroomy
          rw [hfull.1 j] at hj
          cases hj
      refine (h.setSlot fun heq => absurd heq hne).setThread thread ?_
      exact fun heq => hne (Option.some.inj heq)
    · exact h
  | fill thread =>
    have hfilled := h.filled thread
    dsimp only [torStep]
    split
    · exact h
    · rename_i k hop targetPort hthread
      rw [hthread] at hfilled
      have hne : k ≠ i := fun heq => hfilled (congrArg some heq)
      exact (h.setSlot fun heq => absurd heq hne).setThread thread hfilled
    · rename_i k hop targetPort hthread
      rw [hthread] at hfilled
      have hne : k ≠ i := fun heq => hfilled (congrArg some heq)
      exact (h.setSlot fun heq => absurd heq hne).setThread thread hfilled
    · rename_i k targetPort hthread
      rw [hthread] at hfilled
      have hne : k ≠ i := fun heq => hfilled (congrArg some heq)
      exact (h.setSlot fun heq => absurd heq hne).setThread thread nofun
  | find hint =>
    dsimp only [torStep]
    split
    · refine h.setSlot fun heq => ?_
      rw [heq]
      exact h.session
    · exact h
  | reset => cases hroomy

/-- A circuit keeps its session, whatever is extended or found besides, until the table is cleared
or has no free slot left. -/
theorem session_stays {s : TorRelay} {i : Fin torMaxSessions} {sess : TorSession}
    (h : s.Settled i sess) {as : List TorAct} (hroomy : StepsMeet torStep TorRelay.Roomy as s) :
    (run torStep as s).Settled i sess :=
  (along_of_stepsMeet torStep (fun s => s.Settled i sess) (fun _ _ hs ha => torStep_settled hs ha)
    h hroomy).last

end AnonSecNet.Tor
