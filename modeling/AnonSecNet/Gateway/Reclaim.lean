import AnonSecNet.Gateway.Binding
import AnonSecNet.Gateway.Pins

/-! Which sessions `sess_alloc` may reclaim: time stamps against the last use of a session. -/
namespace AnonSecNet.Gateway
open Octets Machine
variable (P : Primitives)

/-- The session was used within the last `SESSION_TTL_MS`. -/
def Live (s : SgState) (i : Fin maxSessions) : Prop :=
  ∃ u, s.used i = some u ∧ s.clock < u + sessionTtlMs

/-- `sess_alloc` does not take the slot of a live session. -/
def SparesLive (s : SgState) : SgAct → Prop
  | .extend _ _ => ∀ i, sessAlloc s.table s.clock = some i → ¬ Live s i
  | _ => True

/-- `now - last_active_ms`. -/
def ageOf (s : SgState) (i : Fin maxSessions) : Nat :=
  ticksSince s.clock (s.table i).lastActiveMs

/-- In a full table, a live receiving session that nobody pins, and whose stamp has expired, has
a session before it in the order in which slots are reclaimed. -/
def HasOlder (s : SgState) : SgAct → Prop
  | .extend _ _ => (∀ i, (s.table i).inUse = true) →
    ∀ j, (s.table j).role = sessionRoleB → Live s j → (s.table j).inFlight = 0 →
      sessionTtlMs ≤ ageOf s j →
        ∃ k, (s.table k).inFlight = 0 ∧ (ageOf s j < ageOf s k ∨ ageOf s k = ageOf s j ∧ j < k)
  | _ => True

/-! Time stamps and last uses. -/

/-- A session that was used is in use; a sending session is used when its stamp is set, and only a
receiving session may be used later than its stamp says. -/
structure UseOk (clock : Nat) (sess : SgSession) (used : Option Nat) : Prop where
  free : sess.inUse = false → used = none
  past : sess.lastActiveMs ≤ clock
  stamped : ∀ u, used = some u →
    sess.role = sessionRoleA ∧ u = sess.lastActiveMs ∨ sess.role = sessionRoleB

/-- Nothing; the slot is taken for a new session; a packet is accepted for its session; or a
response is sent under it. -/
inductive StampEffect (s s' : SgState) (i : Fin maxSessions) : Prop where
  | same (identity : identity (s'.table i) = identity (s.table i))
      (stamp : (s'.table i).lastActiveMs = (s.table i).lastActiveMs) (used : s'.used i = s.used i)
  | taken (live : (s'.table i).inUse = true) (stamp : (s'.table i).lastActiveMs = s.clock)
      (used : s'.used i = none)
  | accepted (identity : identity (s'.table i) = identity (s.table i))
      (live : (s.table i).inUse = true) (stamp : (s'.table i).lastActiveMs = s.clock)
      (used : s'.used i = if (s.table i).role = sessionRoleA then some s.clock else s.used i)
  | answered (identity : identity (s'.table i) = identity (s.table i))
      (live : (s.table i).inUse = true) (role : (s.table i).role = sessionRoleB)
      (stamp : (s'.table i).lastActiveMs = (s.table i).lastActiveMs)
      (used : s'.used i = some s.clock)

theorem inUse_of_identity {sess sess' : SgSession} (h : identity sess' = identity sess) :
    sess'.inUse = sess.inUse := congrArg Prod.fst h

theorem role_of_identity {sess sess' : SgSession} (h : identity sess' = identity sess) :
    sess'.role = sess.role := congrArg (fun x => x.2.1) h

theorem UseOk.step {s s' : SgState} {i : Fin maxSessions}
    (h : UseOk s.clock (s.table i) (s.used i)) (heffect : StampEffect s s' i)
    (hclock : s.clock ≤ s'.clock) : UseOk s'.clock (s'.table i) (s'.used i) := by
  obtain ⟨hfree, hpast, hstamped⟩ := h
  cases heffect with
  | same identity stamp used =>
    refine ⟨?_, ?_, ?_⟩
    · rw [inUse_of_identity identity, used]
      exact hfree
    · rw [stamp]
      exact hpast.trans hclock
    · rw [role_of_identity identity, stamp, used]
      exact hstamped
  | taken live stamp used =>
    refine ⟨fun _ => used, by rw [stamp]; exact hclock, ?_⟩
    intro u hu
    rw [used] at hu
    cases hu
  | accepted identity live stamp used =>
    refine ⟨?_, by rw [stamp]; exact hclock, ?_⟩
    · intro hnot
      rw [inUse_of_identity identity, live] at hnot
      cases hnot
    · intro u hu
      rw [role_of_identity identity, stamp]
      by_cases hrole : (s.table i).role = sessionRoleA
      · rw [used, if_pos hrole] at hu
        exact Or.inl ⟨hrole, (Option.some.inj hu).symm⟩
      · rw [used, if_neg hrole] at hu
        exact Or.inr ((hstamped u hu).resolve_left fun hA => hrole hA.1)
  | answered identity live role stamp used =>
    refine ⟨?_, by rw [stamp]; exact hpast.trans hclock, ?_⟩
    · intro hnot
      rw [inUse_of_identity identity, live] at hnot
      cases hnot
    · intro u hu
      rw [role_of_identity identity]
      exact Or.inr role

/-! One step. -/

theorem stamp_pin (t : Table) (a i : Fin maxSessions) :
    (pin t a i).lastActiveMs = (t i).lastActiveMs := update_keeps SgSession.lastActiveMs rfl

theorem stamp_unpins (released : List (Fin maxSessions)) (t : Table) (i : Fin maxSessions) :
    (released.foldl unpin t i).lastActiveMs = (t i).lastActiveMs := by
  induction released generalizing t with
  | nil => rfl
  | cons a released ih => exact (ih (unpin t a)).trans (update_keeps SgSession.lastActiveMs rfl)

theorem stamp_sendResponse (t : Table) (a : Fin maxSessions) (reqHdr : ReturnHeader)
    (resp : List UInt8) (now : Nat) (i : Fin maxSessions) :
    (sendResponse t a reqHdr resp now i).lastActiveMs = (t i).lastActiveMs := by
  unfold sendResponse
  split
  · rfl
  · exact update_keeps SgSession.lastActiveMs rfl

theorem used_queueing (s : SgState) (inp : Input) (a b : Fin maxSessions) (reqHdr : ReturnHeader)
    (resp : List UInt8) : (s.record P inp (.queueing a b reqHdr resp)).used = s.used := by
  simp only [SgState.record]
  split
  · rfl
  · rfl

theorem used_writing (s : SgState) (inp : Input) (a b : Fin maxSessions) (out : Outgoing)
    (e : Sending) :
    (s.record P inp (.writing a b out e)).used = s.used ∨
      (s.record P inp (.writing a b out e)).used = Function.update s.used b (some s.clock) := by
  simp only [SgState.record]
  split
  · exact Or.inr rfl
  · exact Or.inl rfl

theorem used_lookup (s : SgState) (inp : Input) {pkt : WirePacket}
    {c : Fin maxSessions × AesKey} (cs : List (Fin maxSessions × AesKey))
    {out : List UInt8 × UInt8} (h : acceptCandidate P s.table pkt c = some out) :
    (s.record P inp (.lookup pkt (c :: cs))).used
      = if (s.table c.1).role = sessionRoleA then Function.update s.used c.1 (some s.clock)
        else s.used := by
  simp only [SgState.record, h, Option.isSome_some, true_and]
  split
  · rfl
  · rfl

theorem sgStep_stamp_advance {s : SgState} {k : Nat} {st : Stage} (hk : s.threads[k]? = some st)
    (hpartner : ∀ b ∈ st.pins.tail, (s.table b).inUse = true ∧ (s.table b).role = sessionRoleB)
    (inp : Input) (i : Fin maxSessions) :
    StampEffect s (sgStep P s (.advance k inp)) i := by
  have hstep := sgStep_advance P hk inp
  have htable := congrArg SgState.table hstep
  have hused : (sgStep P s (.advance k inp)).used = (s.record P inp st).used := by
    rw [hstep]
  have hmoves := advance_moves P s.table s.clock inp st
  dsimp only at htable
  rw [← htable] at hmoves
  generalize (advance P s.table s.clock inp st).2 = st' at hmoves
  generalize sgStep P s (.advance k inp) = s' at *
  clear htable hstep
  have hid := hmoves.identity P i
  generalize ht : s'.table = t' at hmoves
  have hquiet : Quiet P s.table st → s'.used i = s.used i := by
    intro hquiet
    rw [hused, hquiet s inp rfl]
  cases hmoves with
  | keeps quiet pins inHand => exact .same hid (by rw [ht]) (hquiet quiet)
  | stores a sess quiet pins inHand same =>
    refine .same hid ?_ (hquiet quiet)
    rw [ht]
    exact update_keeps SgSession.lastActiveMs same.lastActive
  | accepts pkt c cs payload flags live accepted =>
    rw [used_lookup P s inp cs accepted] at hused
    by_cases hc : i = c.1
    · subst hc
      refine .accepted hid live ?_ ?_
      · rw [ht, stamp_pin, Function.update_self]
      · rw [hused]
        split
        · exact Function.update_self _ _ _
        · rfl
    · refine .same hid ?_ ?_
      · rw [ht, stamp_pin, Function.update_of_ne hc]
      · rw [hused]
        split
        · exact Function.update_of_ne hc _ _
        · rfl
  | pins a b quiet live before after inHand =>
    exact .same hid (by rw [ht, stamp_pin]) (hquiet quiet)
  | pops a b payload e rest pending =>
    refine .same hid ?_ (hquiet fun _ _ _ => rfl)
    rw [ht]
    exact update_keeps SgSession.lastActiveMs rfl
  | flushes a e rest live pending waited =>
    refine .same hid ?_ (hquiet fun _ _ _ => rfl)
    rw [ht, stamp_pin]
    exact update_keeps SgSession.lastActiveMs rfl
  | queues a b reqHdr resp =>
    refine .same hid (by rw [ht, stamp_sendResponse]) ?_
    rw [hused, used_queueing]
  | writes a b out e =>
    obtain hsame | hsent := used_writing P s inp a b out e
    · exact .same hid (by rw [ht]) (by rw [hused, hsame])
    · rw [hsent] at hused
      by_cases hb : i = b
      · subst hb
        obtain ⟨hlive, hrole⟩ := hpartner i (List.mem_singleton_self i)
        exact .answered hid hlive hrole (by rw [ht]) (by rw [hused, Function.update_self])
      · exact .same hid (by rw [ht]) (by rw [hused, Function.update_of_ne hb])
  | drops a e => exact .same hid (by rw [ht]) (hquiet fun _ _ _ => rfl)
  | unpins released quiet pins alone before after =>
    exact .same hid (by rw [ht, stamp_unpins]) (hquiet quiet)

/-- The second session of a thread is the receiving one it found. -/
theorem Moves.partner {t t' : Table} {now : Nat} {st st' : Stage} (h : Moves P t now st t' st')
    {b : Fin maxSessions} (hb : b ∈ st'.pins.tail) :
    b ∈ st.pins.tail ∨ (t b).inUse = true ∧ (t b).role = sessionRoleB := by
  cases h with
  | keeps quiet pins inHand => exact Or.inl (pins ▸ hb)
  | stores a sess quiet pins inHand same => exact Or.inl (pins ▸ hb)
  | accepts pkt c cs payload flags live accepted => cases hb
  | pins a b' quiet live before after inHand =>
    rw [after] at hb
    rw [List.mem_singleton.mp hb]
    exact Or.inr live
  | pops a b' payload e rest pending => exact Or.inl hb
  | flushes a e rest live pending waited => cases hb
  | queues a b' reqHdr resp => exact Or.inl hb
  | writes a b' out e =>
    rw [pins_returnTo] at hb
    exact Or.inl hb
  | drops a e => cases hb
  | unpins released quiet pins alone before after =>
    rw [alone] at hb
    cases hb

/-! Whole runs. -/

/-- Counts, partners and time stamps are in order. -/
structure Stamped (s : SgState) : Prop where
  counted : Counted s
  partner : ∀ st ∈ s.threads, ∀ b ∈ st.pins.tail, (s.table b).role = sessionRoleB
  useOk : ∀ i, UseOk s.clock (s.table i) (s.used i)

theorem Stamped.initial : Stamped SgState.initial where
  counted := Counted.initial
  partner := by
    intro st hst b hb
    rw [List.mem_singleton.mp hst] at hb
    cases hb
  useOk := fun _ => ⟨fun _ => rfl, Nat.le_refl 0, fun _ hu => by cases hu⟩

theorem pinsOf_pos {s : SgState} {st : Stage} {i : Fin maxSessions} (hst : st ∈ s.threads)
    (hi : i ∈ st.pins) : 0 < pinsOf s i := by
  obtain ⟨k, hk⟩ := List.mem_iff_getElem?.mp hst
  exact HoldsPin.pos ⟨st, hk, hi⟩

/-- The partners of the threads that were there stay receiving sessions. -/
theorem Stamped.partner_step {s : SgState} (h : Stamped s) (act : SgAct) {st : Stage}
    (hst : st ∈ s.threads) {b : Fin maxSessions} (hb : b ∈ st.pins.tail) :
    ((sgStep P s act).table b).role = sessionRoleB := by
  have hpins := pinsOf_pos hst (List.mem_of_mem_tail hb)
  rw [role_of_identity (h.counted.identity_step P act hpins)]
  exact h.partner st hst b hb

theorem Stamped.effect {s : SgState} (h : Stamped s) (act : SgAct) (i : Fin maxSessions) :
    StampEffect s (sgStep P s act) i := by
  cases act with
  | tick ms => exact .same rfl rfl rfl
  | arrive pkt => exact .same rfl rfl rfl
  | extend master role =>
    cases halloc : sessAlloc s.table s.clock with
    | none =>
      rw [sgStep_refused P halloc]
      exact .same rfl rfl rfl
    | some j =>
      rw [sgStep_extend P halloc]
      by_cases hj : i = j
      · subst hj
        refine .taken ?_ ?_ (Function.update_self _ _ _)
        · simp only [SgState.establish, Function.update_self]
          rfl
        · simp only [SgState.establish, Function.update_self]
          rfl
      · refine .same ?_ ?_ (Function.update_of_ne hj _ _)
        · exact congrArg identity (Function.update_of_ne hj _ _)
        · exact congrArg SgSession.lastActiveMs (Function.update_of_ne hj _ _)
  | advance k inp =>
    cases hk : s.threads[k]? with
    | none =>
      rw [sgStep_idle P hk]
      exact .same rfl rfl rfl
    | some st =>
      have hst := List.mem_of_getElem? hk
      refine sgStep_stamp_advance P hk (fun b hb => ⟨?_, h.partner st hst b hb⟩) inp i
      exact h.counted.live b (pinsOf_pos hst (List.mem_of_mem_tail hb))

theorem clock_le_step (s : SgState) (act : SgAct) : s.clock ≤ (sgStep P s act).clock := by
  cases act with
  | tick ms => exact Nat.le_add_right _ _
  | arrive pkt => exact le_rfl
  | extend master role =>
    cases halloc : sessAlloc s.table s.clock with
    | none => rw [sgStep_refused P halloc]
    | some i =>
      rw [sgStep_extend P halloc]
      exact le_rfl
  | advance k inp =>
    cases hk : s.threads[k]? with
    | none => rw [sgStep_idle P hk]
    | some st =>
      rw [sgStep_advance P hk]
      unfold SgState.record
      split
      · split <;> exact le_rfl
      · split <;> exact le_rfl
      · split <;> exact le_rfl
      · exact le_rfl

theorem Stamped.step {s : SgState} (h : Stamped s) (act : SgAct) : Stamped (sgStep P s act) where
  counted := h.counted.step P act
  useOk := fun i => (h.useOk i).step (h.effect P act i) (clock_le_step P s act)
  partner := by
    intro st' hst' b hb
    cases act with
    | tick ms => exact h.partner st' hst' b hb
    | arrive pkt =>
      obtain hold | hnew := List.mem_append.mp hst'
      · exact h.partner st' hold b hb
      · rw [List.mem_singleton.mp hnew] at hb
        cases hb
    | extend master role =>
      have hthreads : (sgStep P s (.extend master role)).threads = s.threads := by
        cases halloc : sessAlloc s.table s.clock with
        | none => rw [sgStep_refused P halloc]
        | some i =>
          rw [sgStep_extend P halloc]
          rfl
      exact h.partner_step P (.extend master role) (hthreads ▸ hst') hb
    | advance k inp =>
      cases hk : s.threads[k]? with
      | none =>
        rw [sgStep_idle P hk] at hst' ⊢
        exact h.partner st' hst' b hb
      | some st =>
        have hthreads : (sgStep P s (.advance k inp)).threads = _ :=
          congrArg SgState.threads (sgStep_advance P hk inp)
        rw [hthreads] at hst'
        obtain hold | hnew := List.mem_or_eq_of_mem_set hst'
        · exact h.partner_step P (.advance k inp) hold hb
        · have hmoves := advance_moves P s.table s.clock inp st
          rw [hnew] at hb
          obtain hbefore | hfound := hmoves.partner P hb
          · exact h.partner_step P (.advance k inp) (List.mem_of_getElem? hk) hbefore
          · rw [sgStep_advance P hk]
            exact (role_of_identity (hmoves.identity P b)).trans hfound.2

/-! Reclaiming. -/

/-- A live session whose stamp is the time of its last use is too young. -/
theorem age_lt_ttl {s : SgState} {i : Fin maxSessions} {u : Nat} (hu : u = (s.table i).lastActiveMs)
    (hpast : (s.table i).lastActiveMs ≤ s.clock) (hlive : s.clock < u + sessionTtlMs) :
    ageOf s i < sessionTtlMs := by
  subst hu
  have httl : sessionTtlMs < 2 ^ 64 := by decide
  unfold ageOf
  rw [ticksSince_of_le hpast (by omega)]
  omega

theorem sessAlloc_eq (s : SgState) :
    sessAlloc s.table s.clock = Slots.alloc (fun i => (s.table i).inUse) sessionTtlMs (ageOf s)
      (fun i => (s.table i).inFlight = 0) := rfl

theorem Stamped.sparesLive_iff {s : SgState} (h : Stamped s) (act : SgAct) :
    SparesLive s act ↔ HasOlder s act := by
  cases act with
  | extend master role =>
    constructor
    · intro hspares hfull j hrole hlive hpins hage
      -- otherwise `j` itself is the one that is reclaimed
      by_contra hnone
      refine hspares j ?_ hlive
      rw [sessAlloc_eq, Slots.alloc_full hfull, Slots.oldest_eq_some]
      refine ⟨⟨decide_eq_true hpins, hage⟩, fun k _ hk _ => ?_⟩
      by_contra hbehind
      exact hnone ⟨k, of_decide_eq_true hk, by omega⟩
    · intro holder i halloc hlive
      obtain ⟨u, hu, hclock⟩ := hlive
      rw [sessAlloc_eq] at halloc
      obtain hfree | ⟨hfull, ⟨heligible, hage⟩, hall⟩ := Slots.alloc_eq_some halloc
      · rw [(h.useOk i).free hfree] at hu
        cases hu
      · obtain ⟨-, hstamp⟩ | hrole := (h.useOk i).stamped u hu
        · have hyoung := age_lt_ttl hstamp (h.useOk i).past hclock
          exact Nat.not_lt.mpr hage hyoung
        · obtain ⟨k, hk, hbefore⟩ := holder hfull i hrole ⟨u, hu, hclock⟩
            (of_decide_eq_true heligible) hage
          have hbehind := hall k (List.mem_finRange k) (decide_eq_true hk) (by omega)
          omega
  | _ => exact ⟨fun _ => trivial, fun _ => trivial⟩

/-- No run reclaims a session within `SESSION_TTL_MS` of its last use exactly if, whenever the
table is full, every receiving session that its stamp would give up has an older one. -/
theorem live_sessions_spared_iff (acts : List SgAct) :
    StepsMeet (sgStep P) SparesLive acts SgState.initial ↔
      StepsMeet (sgStep P) HasOlder acts SgState.initial := by
  constructor
  · exact StepsMeet.imp (sgStep P) Stamped (fun s act h _ => h.step P act)
      (fun s act h hact => (h.sparesLive_iff act).mp hact) Stamped.initial
  · exact StepsMeet.imp (sgStep P) Stamped (fun s act h _ => h.step P act)
      (fun s act h hact => (h.sparesLive_iff act).mpr hact) Stamped.initial

/-! A full table. -/

/-- The slots in use are the first `m`. -/
def Filled (s : SgState) (m : Nat) : Prop :=
  ∀ i : Fin maxSessions, (s.table i).inUse = true ↔ i.val < m

/-- What `n` further sessions leave behind: they fill the slots from `m` on. -/
structure FilledFrom (s s' : SgState) (m n : Nat) : Prop where
  filled : Filled s' (m + n)
  clock : s'.clock = s.clock
  kept : ∀ i : Fin maxSessions, i.val < m → s'.table i = s.table i ∧ s'.used i = s.used i
  stamps : ∀ i : Fin maxSessions, m ≤ i.val → i.val < m + n → (s'.table i).lastActiveMs = s.clock

theorem sgStep_fill {s : SgState} {m : Nat} (hm : m < maxSessions) (h : Filled s m)
    (master : AesKey) (role : UInt8) :
    FilledFrom s (sgStep P s (.extend master role)) m 1 := by
  have halloc : sessAlloc s.table s.clock = some ⟨m, hm⟩ := by
    rw [sessAlloc_eq]
    refine Slots.alloc_free ?_ fun j hj => (h j).mpr hj
    exact Bool.eq_false_iff.mpr fun huse => Nat.lt_irrefl m ((h ⟨m, hm⟩).mp huse)
  rw [sgStep_extend P halloc]
  have hself : (s.establish P master role ⟨m, hm⟩).table ⟨m, hm⟩
      = extendedSession P master role s.clock := Function.update_self _ _ _
  have hother : ∀ i : Fin maxSessions, i.val ≠ m →
      (s.establish P master role ⟨m, hm⟩).table i = s.table i ∧
        (s.establish P master role ⟨m, hm⟩).used i = s.used i := by
    intro i hi
    have hne : i ≠ ⟨m, hm⟩ := fun heq => hi (congrArg Fin.val heq)
    exact ⟨Function.update_of_ne hne _ _, Function.update_of_ne hne _ _⟩
  refine ⟨fun i => ?_, rfl, fun i hi => hother i hi.ne, fun i hle hlt => ?_⟩
  · by_cases hi : i.val = m
    · obtain rfl : i = ⟨m, hm⟩ := Fin.ext hi
      rw [hself]
      exact ⟨fun _ => Nat.lt_succ_self m, fun _ => rfl⟩
    · rw [(hother i hi).1, h i]
      omega
  · obtain rfl : i = ⟨m, hm⟩ := Fin.ext (by simp only; omega)
    rw [hself]
    rfl

theorem run_fill (n : Nat) {s : SgState} {m : Nat} (hm : m + n ≤ maxSessions) (h : Filled s m)
    (master : AesKey) (role : UInt8) :
    FilledFrom s (run (sgStep P) (List.replicate n (.extend master role)) s) m n := by
  induction n generalizing s m with
  | zero =>
    exact ⟨h, rfl, fun _ _ => ⟨rfl, rfl⟩, fun i hle hlt => absurd hlt (Nat.not_lt.mpr hle)⟩
  | succ n ih =>
    have hstep := sgStep_fill P (by omega) h master role
    have hrun := ih (m := m + 1) (by omega) hstep.filled
    have hsum : m + (n + 1) = m + 1 + n := by omega
    rw [List.replicate_succ]
    refine ⟨?_, hrun.clock.trans hstep.clock, fun i hi => ?_, fun i hle hlt => ?_⟩
    · rw [hsum]
      exact hrun.filled
    · obtain ⟨htable, hused⟩ := hrun.kept i (by omega)
      obtain ⟨htable', hused'⟩ := hstep.kept i hi
      exact ⟨htable.trans htable', hused.trans hused'⟩
    · by_cases hi : i.val = m
      · have hkept := (hrun.kept i (by omega)).1
        exact (congrArg SgSession.lastActiveMs hkept).trans (hstep.stamps i hle (by omega))
      · exact (hrun.stamps i (by omega) (by omega)).trans hstep.clock

/-- Session 0 receives, and a response was sent under it one millisecond before its stamp
expires; session 1 sends, and no other slot is in use. -/
structure Answered (s : SgState) : Prop where
  filled : Filled s 2
  role : (s.table 0).role = sessionRoleB
  stamp : (s.table 0).lastActiveMs = 0
  unpinned : (s.table 0).inFlight = 0
  used : s.used 0 = some (sessionTtlMs - 1)
  sender : (s.table 1).lastActiveMs = sessionTtlMs - 1
  clock : s.clock = sessionTtlMs - 1

/-- Once the table is full, the next millisecond gives up session 0. -/
theorem Answered.reclaimed {s : SgState} (h : Answered s) {n : Nat} (hn : 2 + n = maxSessions)
    (master : AesKey) (role : UInt8) {s' : SgState}
    (hs' : s' = sgStep P (run (sgStep P) (List.replicate n (.extend master role)) s) (.tick 1)) :
    Live s' 0 ∧ sessAlloc s'.table s'.clock = some 0 := by
  have hfill := run_fill P n hn.le h.filled master role
  obtain ⟨htable0, hused0⟩ := hfill.kept 0 (by decide)
  have hclock : s'.clock = sessionTtlMs := by
    have hnow : s'.clock = (sessionTtlMs - 1) + 1 := by
      rw [hs', ← h.clock, ← hfill.clock]
      rfl
    exact hnow
  have htable : ∀ i, s'.table i
      = (run (sgStep P) (List.replicate n (.extend master role)) s).table i := by
    intro i
    rw [hs']
    rfl
  have hage : ∀ i u, (s'.table i).lastActiveMs = u → u ≤ sessionTtlMs →
      ageOf s' i = sessionTtlMs - u := by
    rintro i u rfl hle
    have httl : sessionTtlMs < 2 ^ 64 := by decide
    unfold ageOf
    rw [hclock, ticksSince_of_le hle (by omega)]
  have hage0 : ageOf s' 0 = sessionTtlMs :=
    hage 0 0 (by rw [htable, htable0, h.stamp]) (Nat.zero_le _)
  have hothers : ∀ i : Fin maxSessions, i ≠ 0 → ageOf s' i < sessionTtlMs := by
    intro i hi
    have hstamp : (s'.table i).lastActiveMs = sessionTtlMs - 1 := by
      rw [htable]
      by_cases h1 : i = 1
      · subst h1
        rw [(hfill.kept 1 (by decide)).1, h.sender]
      · have hval : 2 ≤ i.val := by
          have hne0 : i.val ≠ 0 := fun heq => hi (Fin.ext heq)
          have hne1 : i.val ≠ 1 := fun heq => h1 (Fin.ext heq)
          omega
        exact (hfill.stamps i hval (i.isLt.trans_eq hn.symm)).trans h.clock
    have httl : 1 < sessionTtlMs := by decide
    rw [hage i _ hstamp (Nat.sub_le _ _)]
    omega
  refine ⟨⟨sessionTtlMs - 1, ?_, ?_⟩, ?_⟩
  · rw [hs', ← h.used]
    exact hused0
  · rw [hclock]
    decide
  · rw [sessAlloc_eq, Slots.alloc_full, Slots.oldest_eq_some]
    · refine ⟨⟨?_, hage0.ge⟩, fun j _ _ hj => ?_⟩
      · refine decide_eq_true ?_
        rw [htable, htable0, h.unpinned]
      · by_cases hj0 : j = 0
        · rw [hj0]
          exact Or.inr ⟨rfl, le_rfl⟩
        · exact absurd (hothers j hj0) (Nat.not_lt.mpr hj)
    · intro j
      rw [htable]
      exact (hfill.filled j).mpr (j.isLt.trans_eq hn.symm)

/-- A SETUP of session 1 is acknowledged under session 0. -/
def answeredRun : List SgAct :=
  [.extend (sampleMaster 1) sessionRoleB, .extend (sampleMaster 0) sessionRoleA,
      .tick (sessionTtlMs - 1), .arrive (delivered .sample (sampleMaster 0)
        (setupPayload .sample (sampleMaster 0) (sampleMaster 1) (Bytes.zero _)) pktReal)]
    ++ List.replicate 9 (.advance 1 ⟨Bytes.zero _, none, none, true⟩)

set_option maxRecDepth 100000 in
theorem answeredRun_answered : Answered (run (sgStep .sample) answeredRun .initial) := by
  have hfilled : ∀ i : Fin maxSessions,
      ((run (sgStep .sample) answeredRun .initial).table i).inUse = true ↔ i.val < 2 := by
    decide +kernel
  have hfacts : let s := run (sgStep .sample) answeredRun .initial
      ((s.table 0).role = sessionRoleB ∧ (s.table 0).lastActiveMs = 0 ∧
        (s.table 0).inFlight = 0 ∧ s.used 0 = some (sessionTtlMs - 1)) ∧
      (s.table 1).lastActiveMs = sessionTtlMs - 1 ∧ s.clock = sessionTtlMs - 1 := by
    decide +kernel
  obtain ⟨⟨hrole, hstamp, hpins, hused⟩, hsender, hclock⟩ := hfacts
  exact ⟨hfilled, hrole, hstamp, hpins, hused, hsender, hclock⟩

/-- Then the table fills up with the sessions of other clients. -/
def crowdedRun : List SgAct :=
  answeredRun ++ List.replicate (maxSessions - 2) (.extend (sampleMaster 2) sessionRoleA)
    ++ [.tick 1]

/-- A millisecond after a response was sent under it, session 0 is reclaimed. -/
theorem live_session_reclaimed :
    (let s := run (sgStep .sample) crowdedRun .initial
     Live s 0 ∧ sessAlloc s.table s.clock = some 0) ∧
      ¬ StepsMeet (sgStep .sample) SparesLive
          (crowdedRun ++ [.extend (sampleMaster 2) sessionRoleA]) .initial := by
  have hend := answeredRun_answered.reclaimed .sample (n := maxSessions - 2) (by decide)
    (sampleMaster 2) sessionRoleA
    (by rw [crowdedRun, run_concat, run_append] : run (sgStep .sample) crowdedRun .initial = _)
  refine ⟨hend, fun h => ?_⟩
  exact ((stepsMeet_append (sgStep .sample) _ _ _).mp h).2.1 0 hend.2 hend.1

end AnonSecNet.Gateway
