import AnonSecNet.Packet.Return
import AnonSecNet.Foundation.Slots

/-! The session table of `mix_node.c`: allocation, the hint windows, lookup by hint and
the nonce caches. Each function is one critical section of the source. -/
namespace AnonSecNet.MixNode
open Octets
variable (P : Primitives)

/-- The two counter domains: index 0 and 1 of the source. -/
inductive Domain where
  | real | cover
deriving DecidableEq, Repr

/-- Where a domain's counters start. -/
def Domain.first : Domain → Nat
  | .real => 0
  | .cover => hintCoverCounterBase

/-- `UINT64_MAX`: nothing matched yet. -/
def noHighWater : Nat := 2 ^ 64 - 1

/-- The rotating hint state of a session, one window a domain. -/
structure HintState where
  hintSeed : AesKey
  hintBase : Domain → Nat
  hintWindow : Domain → Fin hintWindow → Hint
  hintHighWater : Domain → Nat

/-- `session_entry_t`. -/
structure SessionEntry extends HintState where
  headerEncKey : AesKey
  headerMacKey : AesKey
  returnBlindKey : AesKey
  role : UInt8
  seenNonces : Recent (Bytes nonceBytes) replayWindow
  seenReturnNonces : Recent (Bytes returnNonceBytes) replayWindow
  inUse : Bool
  lastActiveMs : Nat
  generation : Nat

abbrev Table : Type := Fin maxSessions → SessionEntry

/-- A slot after `memset`. -/
def zeroEntry : SessionEntry where
  headerEncKey := Bytes.zero _
  headerMacKey := Bytes.zero _
  returnBlindKey := Bytes.zero _
  role := 0
  seenNonces := Recent.empty
  seenReturnNonces := Recent.empty
  inUse := false
  lastActiveMs := 0
  hintSeed := Bytes.zero _
  hintBase := fun _ => 0
  hintWindow := fun _ _ => Bytes.zero _
  hintHighWater := fun _ => 0
  generation := 0

/-- `session_keys_t`. -/
structure SessionKeys where
  headerEncKey : AesKey
  headerMacKey : AesKey
  returnBlindKey : AesKey
deriving DecidableEq

def SessionEntry.keys (sess : SessionEntry) : SessionKeys :=
  ⟨sess.headerEncKey, sess.headerMacKey, sess.returnBlindKey⟩

/-! Allocation. -/

def sessionAlloc (t : Table) (now : Nat) : Option (Fin maxSessions × Table) :=
  (Slots.alloc (fun i => (t i).inUse) sessionTtlMs (fun i => ticksSince now (t i).lastActiveMs)
    (fun _ => true)).map fun i =>
      (i, Function.update t i
        { zeroEntry with
          inUse := true
          lastActiveMs := now
          generation := ((t i).generation + 1) % 2 ^ 32 })

/-! Hint windows. -/

def sessionInitHintWindow (seed : AesKey) : HintState where
  hintSeed := seed
  hintBase := Domain.first
  hintHighWater := fun _ => noHighWater
  hintWindow := fun d w => packetDeriveHopHint P seed (d.first + w)

/-- The part of `handle_extend` that runs under the session lock. -/
def extendSession (t : Table) (master : AesKey) (role : UInt8) (now : Nat) :
    Option (Fin maxSessions × Table) :=
  (sessionAlloc t now).map fun (i, t') =>
    let (henc, hmk, bkey) := packetDeriveHopKeys P master
    (i, Function.update t' i
      { t' i with
        toHintState := sessionInitHintWindow P (packetDeriveHintSeed P master)
        headerEncKey := henc
        headerMacKey := hmk
        returnBlindKey := bkey
        role := role })

/-- `hint_high_water` after a match at `matchedAbs`. -/
def raiseHighWater (highWater matchedAbs : Nat) : Nat :=
  if highWater = noHighWater ∨ highWater < matchedAbs then matchedAbs else highWater

def desiredBase (highWater : Nat) : Nat :=
  if hintSafetyMargin ≤ highWater then highWater - hintSafetyMargin + 1 else 0

/-- The absolute counter a window offset stands for now. -/
def HintState.matchedAbs (h : HintState) (domain : Domain) (consumedThrough : Nat) : Nat :=
  (h.hintBase domain + consumedThrough) % 2 ^ 64

def sessionAdvanceHintWindow (h : HintState) (domain : Domain) (consumedThrough : Nat) :
    HintState :=
  let highWater := raiseHighWater (h.hintHighWater domain) (h.matchedAbs domain consumedThrough)
  let marked := { h with hintHighWater := Function.update h.hintHighWater domain highWater }
  if desiredBase highWater ≤ h.hintBase domain then marked
  else
    { marked with
      hintBase := Function.update h.hintBase domain (desiredBase highWater)
      hintWindow := Function.update h.hintWindow domain
        fun w => packetDeriveHopHint P h.hintSeed (desiredBase highWater + w) }

/-! Lookup by hint. -/

/-- The first window slot holding `hint`: the real domain before the cover domain. -/
def matchHint (h : HintState) (hint : Hint) : Option (Domain × Fin hintWindow) :=
  ((Fin.find? fun w => decide (h.hintWindow .real w = hint)).map (Prod.mk .real)).or
    ((Fin.find? fun w => decide (h.hintWindow .cover w = hint)).map (Prod.mk .cover))

/-- What `session_find` hands out. -/
structure Found where
  idx : Fin maxSessions
  keys : SessionKeys
  domain : Domain
  windowIdx : Fin hintWindow
  generation : Nat
deriving DecidableEq

def foundAt (t : Table) (hint : Hint) (i : Fin maxSessions) : Option Found :=
  if (t i).inUse then
    (matchHint (t i).toHintState hint).map fun m => ⟨i, (t i).keys, m.1, m.2, (t i).generation⟩
  else none

/-- The scan over the whole table; irreducible, so that nothing unrolls it. -/
@[irreducible] def firstFound (t : Table) (hint : Hint) : Option Found :=
  Fin.findSome? (foundAt t hint)

def sessionFind (t : Table) (hint : Hint) (now : Nat) : Option Found × Table :=
  match firstFound t hint with
  | none => (none, t)
  | some f => (some f, Function.update t f.idx { t f.idx with lastActiveMs := now })

/-- The slot still belongs to the session that was found. -/
def SameSession (t : Table) (idx : Fin maxSessions) (generation : Nat) : Prop :=
  (t idx).inUse = true ∧ (t idx).generation = generation

instance (t : Table) (idx : Fin maxSessions) (generation : Nat) :
    Decidable (SameSession t idx generation) :=
  inferInstanceAs (Decidable (_ ∧ _))

def sessionConfirmHintMatch (t : Table) (f : Found) : Table :=
  if SameSession t f.idx f.generation then
    Function.update t f.idx
      { t f.idx with
        toHintState := sessionAdvanceHintWindow P (t f.idx).toHintState f.domain f.windowIdx }
  else t

/-! Nonce caches: the flag says that the packet is to be dropped. -/

def sessionCheckNonceByIdx (t : Table) (idx : Fin maxSessions) (generation : Nat)
    (nonce : Bytes nonceBytes) : Bool × Table :=
  if SameSession t idx generation then
    let (drop, seen) := (t idx).seenNonces.checkAndRecord nonce
    (drop, Function.update t idx { t idx with seenNonces := seen })
  else (true, t)

def sessionCheckReturnNonceByIdx (t : Table) (idx : Fin maxSessions) (generation : Nat)
    (nonce : Bytes returnNonceBytes) : Bool × Table :=
  if SameSession t idx generation then
    let (drop, seen) := (t idx).seenReturnNonces.checkAndRecord nonce
    (drop, Function.update t idx { t idx with seenReturnNonces := seen })
  else (true, t)

/-! What the operations do. -/

theorem mem_matchHint {h : HintState} {hint : Hint} {d : Domain} {w : Fin hintWindow}
    (hm : matchHint h hint = some (d, w)) : h.hintWindow d w = hint := by
  rcases Option.or_eq_some_iff.mp hm with hr | ⟨_, hc⟩
  · obtain ⟨v, hv, hvw⟩ := Option.map_eq_some_iff.mp hr
    cases hvw
    simpa using Fin.eq_true_of_find?_eq_some hv
  · obtain ⟨v, hv, hvw⟩ := Option.map_eq_some_iff.mp hc
    cases hvw
    simpa using Fin.eq_true_of_find?_eq_some hv

theorem matchHint_isSome {h : HintState} {d : Domain} {w : Fin hintWindow} {hint : Hint}
    (hw : h.hintWindow d w = hint) : (matchHint h hint).isSome := by
  have hfind : (Fin.find? fun v => decide (h.hintWindow d v = hint)).isSome :=
    Fin.isSome_find?_of_eq_true (decide_eq_true hw)
  unfold matchHint
  cases d with
  | real => simp only [Option.isSome_or, Option.isSome_map, hfind, Bool.true_or]
  | cover => simp only [Option.isSome_or, Option.isSome_map, hfind, Bool.or_true]

theorem foundAt_eq_some {t : Table} {hint : Hint} {i : Fin maxSessions} {f : Found}
    (h : foundAt t hint i = some f) :
    f.idx = i ∧ (t i).inUse = true ∧ (t i).hintWindow f.domain f.windowIdx = hint ∧
      f.keys = (t i).keys ∧ f.generation = (t i).generation := by
  unfold foundAt at h
  split at h
  · rename_i huse
    obtain ⟨⟨d, w⟩, hm, rfl⟩ := Option.map_eq_some_iff.mp h
    exact ⟨rfl, huse, mem_matchHint hm, rfl, rfl⟩
  · cases h

theorem firstFound_eq_some {t : Table} {hint : Hint} {f : Found}
    (h : firstFound t hint = some f) :
    ∃ i, foundAt t hint i = some f ∧ ∀ j < i, foundAt t hint j = none := by
  unfold firstFound at h
  exact Fin.findSome?_eq_some_iff.mp h

theorem firstFound_isSome {t : Table} {hint : Hint} {i : Fin maxSessions}
    (h : (foundAt t hint i).isSome) : (firstFound t hint).isSome := by
  unfold firstFound
  exact Fin.isSome_findSome?_of_isSome h

/-- A hint that one slot alone answers leads there. -/
theorem firstFound_of_alone {t : Table} {hint : Hint} {i : Fin maxSessions} {f : Found}
    (h : foundAt t hint i = some f) (halone : ∀ j, j ≠ i → foundAt t hint j = none) :
    firstFound t hint = some f := by
  obtain ⟨g, hg⟩ := Option.isSome_iff_exists.mp (firstFound_isSome (by rw [h]; rfl))
  obtain ⟨j, hj, -⟩ := firstFound_eq_some hg
  have hji : j = i := by
    by_contra hne
    rw [halone j hne] at hj
    cases hj
  subst hji
  rw [hg, ← hj, h]

/-- What `session_find` returns is a live slot whose window holds the hint; it only
touches the slot's time stamp. -/
theorem sessionFind_eq_some {t t' : Table} {hint : Hint} {now : Nat} {f : Found}
    (h : sessionFind t hint now = (some f, t')) :
    foundAt t hint f.idx = some f ∧
      t' = Function.update t f.idx { t f.idx with lastActiveMs := now } := by
  unfold sessionFind at h
  split at h
  · cases h
  · rename_i f' hf
    cases h
    obtain ⟨i, hi, _⟩ := firstFound_eq_some hf
    exact ⟨(foundAt_eq_some hi).1 ▸ hi, rfl⟩

theorem sessionFind_fst (t : Table) (hint : Hint) (now : Nat) :
    (sessionFind t hint now).1 = firstFound t hint := by
  unfold sessionFind
  split
  · rename_i h
    exact h.symm
  · rename_i f h
    exact h.symm

/-- A hint in the window of a live slot is found, in that slot unless an earlier one
holds it too. -/
theorem sessionFind_of_window {t : Table} {i : Fin maxSessions} {d : Domain}
    {w : Fin hintWindow} {hint : Hint} (now : Nat) (huse : (t i).inUse = true)
    (hw : (t i).hintWindow d w = hint) :
    ∃ f, (sessionFind t hint now).1 = some f ∧
      ((∀ j < i, foundAt t hint j = none) → f.idx = i) := by
  have hi : (foundAt t hint i).isSome := by
    rw [foundAt, if_pos huse, Option.isSome_map]
    exact matchHint_isSome hw
  obtain ⟨f, hf⟩ := Option.isSome_iff_exists.mp (firstFound_isSome hi)
  refine ⟨f, (sessionFind_fst t hint now).trans hf, fun hmin => ?_⟩
  obtain ⟨j, hj, hbefore⟩ := firstFound_eq_some hf
  have hidx := (foundAt_eq_some hj).1
  rcases lt_trichotomy j i with hlt | heq | hgt
  · rw [hmin j hlt] at hj
    cases hj
  · rw [hidx, heq]
  · rw [hbefore i hgt] at hi
    cases hi

theorem extendSession_eq_some {t t' : Table} {master : AesKey} {role : UInt8} {now : Nat}
    {i : Fin maxSessions} (h : extendSession P t master role now = some (i, t')) :
    ∃ sess : SessionEntry, t' = Function.update t i sess ∧ sess.inUse = true ∧
      sess.toHintState = sessionInitHintWindow P (packetDeriveHintSeed P master) ∧
      (sess.headerEncKey, sess.headerMacKey, sess.returnBlindKey)
        = packetDeriveHopKeys P master := by
  unfold extendSession sessionAlloc at h
  simp only [Option.map_map, Option.map_eq_some_iff] at h
  obtain ⟨j, _, hj⟩ := h
  simp only [Function.comp, Function.update_self, Function.update_idem, Prod.mk.injEq] at hj
  obtain ⟨rfl, rfl⟩ := hj
  exact ⟨_, rfl, rfl, rfl, rfl⟩

theorem extendSession_role {t t' : Table} {master : AesKey} {role : UInt8} {now : Nat}
    {i : Fin maxSessions} (h : extendSession P t master role now = some (i, t')) :
    (t' i).role = role := by
  unfold extendSession at h
  obtain ⟨⟨j, t₁⟩, _, h⟩ := Option.map_eq_some_iff.mp h
  obtain ⟨rfl, rfl⟩ := Prod.mk.inj h
  dsimp only
  rw [Function.update_self]

end AnonSecNet.MixNode
