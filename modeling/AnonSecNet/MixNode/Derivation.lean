import AnonSecNet.MixNode.CoverView
import AnonSecNet.MixNode.Replay

/-! The sessions of a table are derived from the masters of its run. -/
namespace AnonSecNet.MixNode
open Octets
variable (P : Primitives)

/-- A session of a master in `S`, whatever its windows have advanced to. -/
def Derived (S : AesKey → Prop) (sess : SessionEntry) : Prop :=
  ∃ master, S master ∧ sess.hintSeed = packetDeriveHintSeed P master ∧
    (sess.headerEncKey, sess.headerMacKey, sess.returnBlindKey) = packetDeriveHopKeys P master ∧
    ∀ d w, sess.hintWindow d w = packetDeriveHopHint P sess.hintSeed (sess.hintBase d + w)

def SlotDerived (S : AesKey → Prop) (t : Table) (i : Fin maxSessions) : Prop :=
  (t i).inUse = true → Derived P S (t i)

def TableDerived (S : AesKey → Prop) (t : Table) : Prop := ∀ i, SlotDerived P S t i

theorem Derived.imp {S T : AesKey → Prop} {sess : SessionEntry} (h : Derived P S sess)
    (hST : ∀ m, S m → T m) : Derived P T sess := by
  obtain ⟨master, hS, hrest⟩ := h
  exact ⟨master, hST master hS, hrest⟩

theorem Derived.congr {S : AesKey → Prop} {sess sess' : SessionEntry} (h : Derived P S sess)
    (hkeys : sess'.keys = sess.keys) (hh : sess'.toHintState = sess.toHintState) :
    Derived P S sess' := by
  obtain ⟨master, hS, hseed, hall, hwin⟩ := h
  simp only [SessionEntry.keys, SessionKeys.mk.injEq] at hkeys
  exact ⟨master, hS, by rw [hh, hseed], by rw [← hall, hkeys.1, hkeys.2.1, hkeys.2.2],
    by rw [hh]; exact hwin⟩

theorem Derived.advance {S : AesKey → Prop} {sess sess' : SessionEntry} (h : Derived P S sess)
    (hkeys : sess'.keys = sess.keys) {d : Domain} {w : Fin hintWindow}
    (hh : sess'.toHintState = sessionAdvanceHintWindow P sess.toHintState d w) :
    Derived P S sess' := by
  obtain ⟨master, hS, hseed, hall, hwin⟩ := h
  simp only [SessionEntry.keys, SessionKeys.mk.injEq] at hkeys
  refine ⟨master, hS, ?_, ?_, ?_⟩
  · rw [hh, hintSeed_advance, hseed]
  · rw [← hall, hkeys.1, hkeys.2.1, hkeys.2.2]
  · intro e v
    rw [hh, window_advance P d w hwin, hintSeed_advance]

theorem slotDerived_kept {S : AesKey → Prop} {t t' : Table} {i : Fin maxSessions}
    (ok : SlotDerived P S t i) (h : SlotsKept t t') : SlotDerived P S t' i := by
  intro huse
  obtain ⟨huse', hkeys, hh⟩ := h i
  exact (ok (huse' ▸ huse)).congr P hkeys hh

theorem slotDerived_confirm {S : AesKey → Prop} {t : Table} {i : Fin maxSessions}
    (ok : SlotDerived P S t i) (f : Found) :
    SlotDerived P S (sessionConfirmHintMatch P t f) i := by
  intro huse
  cases slotStep_confirm P (.confirm 0) t f i huse with
  | fresh master role now extend => cases extend
  | kept use keys hints => exact (ok use).congr P keys hints
  | advanced use keys d w hints => exact (ok use).advance P keys hints

theorem slotDerived_extend {t t' : Table} {master : AesKey} {role : UInt8} {now : Nat}
    {i : Fin maxSessions} (h : extendSession P t master role now = some (i, t')) :
    SlotDerived P (fun m => m = master) t' i ∧
      ∀ S k, k ≠ i → SlotDerived P S t k → SlotDerived P S t' k := by
  obtain ⟨sess, rfl, -, hh, hkeys⟩ := extendSession_eq_some P h
  constructor
  · intro _
    rw [Function.update_self]
    exact ⟨master, rfl, by rw [hh]; rfl, hkeys, by rw [hh]; exact fun _ _ => rfl⟩
  · intro S k hk ok huse
    rw [Function.update_of_ne hk] at huse ⊢
    exact ok huse

theorem slotsKept_sessionFind (t : Table) (hint : Hint) (now : Nat) :
    SlotsKept t (sessionFind t hint now).2 := by
  unfold sessionFind
  split
  · exact fun _ => ⟨rfl, rfl, rfl⟩
  · exact slotsKept_update rfl rfl rfl

theorem slotsKept_find (s : TableState) (hint : Hint) (now : Nat) :
    SlotsKept s.table (s.find hint now).2.table := by
  have hkept := slotsKept_sessionFind s.table hint now
  unfold TableState.find
  split
  · rename_i t hfind
    rwa [hfind] at hkept
  · rename_i f t hfind
    rwa [hfind] at hkept

theorem serveReceive_table (hopDecoy : Bool) (s : Serving) (mode : Mode) (wire pad : WirePacket)
    (now : Nat) : (serveReceive P hopDecoy s mode wire pad now).table
      = (s.find (wireHint mode wire) now).2.table := by
  unfold serveReceive
  split
  · rename_i ts hfind
    rw [hfind]
  · rename_i ticket ts hfind
    rw [hfind]
    split <;> rfl

/-- Steps other than setting up a session derive nothing new. -/
theorem slotDerived_serve {S : AesKey → Prop} (hopDecoy : Bool) {s : Serving}
    {i : Fin maxSessions} (ok : SlotDerived P S s.table i) (a : ServeAct)
    (ha : ∀ master role now, a ≠ .extend master role now) :
    SlotDerived P S (serveStep P hopDecoy s a).table i := by
  cases a with
  | extend master role now => exact absurd rfl (ha master role now)
  | receive mode wire pad now =>
    rw [serveStep, serveReceive_table]
    exact slotDerived_kept P ok (slotsKept_find _ _ _)
  | confirm k =>
    simp only [serveStep]
    split
    · split
      · exact slotDerived_confirm P ok _
      · exact ok
    · exact ok
  | check k =>
    simp only [serveStep]
    split
    · rename_i w hk
      split
      · rw [(serveCheck_delivers s k w).1]
        exact slotDerived_kept P ok (slotsKept_checkNonce _ _ _)
      · exact ok
    · exact ok

theorem tableDerived_step {S : AesKey → Prop} (hopDecoy : Bool) {s : Serving}
    (ok : TableDerived P S s.table) (a : ServeAct)
    (ha : ∀ master role now, a = .extend master role now → S master) :
    TableDerived P S (serveStep P hopDecoy s a).table := by
  cases a with
  | extend master role now =>
    simp only [serveStep]
    split
    · exact ok
    · rename_i i ts hext
      obtain ⟨⟨j, t⟩, hsess, hj⟩ := Option.map_eq_some_iff.mp hext
      cases hj
      obtain ⟨hnew, hold⟩ := slotDerived_extend P hsess
      intro k
      by_cases hk : k = i
      · subst hk
        exact fun huse => (hnew huse).imp P fun m hm => hm ▸ ha master role now rfl
      · exact hold S k hk (ok k)
  | receive mode wire pad now =>
    exact fun i => slotDerived_serve P hopDecoy (ok i) _ fun _ _ _ h => by cases h
  | confirm k => exact fun i => slotDerived_serve P hopDecoy (ok i) _ fun _ _ _ h => by cases h
  | check k => exact fun i => slotDerived_serve P hopDecoy (ok i) _ fun _ _ _ h => by cases h

theorem tableDerived_run {S : AesKey → Prop} (hopDecoy : Bool) {s : Serving}
    (ok : TableDerived P S s.table) (acts : List ServeAct)
    (hacts : ∀ master role now, .extend master role now ∈ acts → S master) :
    TableDerived P S (Machine.run (serveStep P hopDecoy) acts s).table := by
  induction acts generalizing s with
  | nil => exact ok
  | cons a acts ih =>
    refine ih (tableDerived_step P hopDecoy ok a fun master role now h => ?_)
      fun master role now h => ?_
    · exact hacts master role now (h ▸ List.mem_cons_self)
    · exact hacts master role now (List.mem_cons_of_mem a h)

theorem tableDerived_initial (S : AesKey → Prop) : TableDerived P S Serving.initial.table := by
  intro i huse
  simp [Serving.initial, TableState.initial, zeroEntry] at huse

/-- The counter a window slot of a derived session stands for. -/
theorem Derived.hint_eq {S : AesKey → Prop} {sess : SessionEntry} (h : Derived P S sess)
    (d : Domain) (w : Fin hintWindow) :
    sess.hintWindow d w = packetDeriveHopHint P sess.hintSeed (sess.matchedAbs d w) := by
  obtain ⟨master, -, -, -, hwin⟩ := h
  exact (hwin d w).trans (packetDeriveHopHint_mod P sess.hintSeed _).symm

end AnonSecNet.MixNode
