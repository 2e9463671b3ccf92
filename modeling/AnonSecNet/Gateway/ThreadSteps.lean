import AnonSecNet.Gateway.Threads

/-! What one step of a thread of the gateway does to the sessions, its pins and the response it
has in hand. -/
namespace AnonSecNet.Gateway
open Octets
variable (P : Primitives)

/-- The sessions a thread holds pinned: its `sess` and `b_sess`, where they are not null. -/
def Stage.pins : Stage → List (Fin maxSessions)
  | .lookup _ _ | .finished | .scanning _ => []
  | .matched a _ _ | .coverFind a _ | .setupStore a _ | .setupFind a _ | .setupClear a
  | .requestFind a _ | .flushFind a _ | .flushUnpin a => [a]
  | .coverPop a b _ | .setupVerify a b _ | .setupCommit a b _ | .requestStore a b _
  | .relaying a b _ | .queueing a b _ _ | .sending a b _ | .writing a b _ _
  | .flushUnpinB a b => [a, b]
  | .done a b => a :: b.toList

/-- A response that was popped from the mailbox of `i` and is not sent yet. -/
def Stage.inHand (i : Fin maxSessions) : Stage → List PendingResp
  | .sending a _ out | .writing a _ out _ => if a = i then out.taken.toList else []
  | .flushFind a e => if a = i then [e] else []
  | _ => []

/-- The next step from this stage leaves the record as it is. -/
def Quiet (t : Table) (st : Stage) : Prop :=
  ∀ (s : SgState) (inp : Input), s.table = t → s.record P inp st = s

/-- The fields that say which session a slot holds. -/
def identity (sess : SgSession) : Bool × UInt8 × AesKey := (sess.inUse, sess.role, sess.e2eKey)

/-- A session with new data, but the same otherwise. -/
structure Stores (sess sess' : SgSession) : Prop where
  identity : identity sess' = identity sess
  inFlight : sess'.inFlight = sess.inFlight
  pending : sess'.pending = sess.pending
  lastActive : sess'.lastActiveMs = sess.lastActiveMs

/-- One step of a thread, by what it does to the table and to what the thread holds. -/
inductive Moves (t : Table) (now : Nat) : Stage → Table → Stage → Prop where
  | keeps {st st' : Stage} (quiet : Quiet P t st) (pins : st'.pins = st.pins)
      (inHand : ∀ i, st'.inHand i = st.inHand i) : Moves t now st t st'
  | stores {st st' : Stage} (a : Fin maxSessions) (sess : SgSession) (quiet : Quiet P t st)
      (pins : st'.pins = st.pins) (inHand : ∀ i, st'.inHand i = st.inHand i)
      (same : Stores (t a) sess) : Moves t now st (Function.update t a sess) st'
  | accepts (pkt : WirePacket) (c : Fin maxSessions × AesKey)
      (cs : List (Fin maxSessions × AesKey)) (payload : List UInt8) (flags : UInt8)
      (live : (t c.1).inUse = true) (accepted : acceptCandidate P t pkt c = some (payload, flags)) :
      Moves t now (.lookup pkt (c :: cs))
        (pin (Function.update t c.1 { t c.1 with lastActiveMs := now }) c.1)
        (.matched c.1 payload flags)
  | pins {st st' : Stage} (a b : Fin maxSessions) (quiet : Quiet P t st)
      (live : (t b).inUse = true ∧ (t b).role = sessionRoleB) (before : st.pins = [a])
      (after : st'.pins = [a, b]) (inHand : ∀ i, st'.inHand i = st.inHand i) :
      Moves t now st (pin t b) st'
  | pops (a b : Fin maxSessions) (payload : List UInt8) (e : PendingResp) (rest : List PendingResp)
      (pending : (t a).pending = e :: rest) :
      Moves t now (.coverPop a b payload) (Function.update t a { t a with pending := rest })
        (.sending a b (.reply e))
  | flushes (i : Fin maxSessions) (e : PendingResp) (rest : List PendingResp)
      (live : (t i).inUse = true ∧ (t i).role = sessionRoleA) (pending : (t i).pending = e :: rest)
      (waited : pendingResponseMaxWaitMs ≤ ticksSince now e.sinceMs) :
      Moves t now (.scanning i) (pin (Function.update t i { t i with pending := rest }) i)
        (.flushFind i e)
  | queues (a b : Fin maxSessions) (reqHdr : ReturnHeader) (resp : List UInt8) :
      Moves t now (.queueing a b reqHdr resp) (sendResponse t a reqHdr resp now) (.done a (some b))
  | writes (a b : Fin maxSessions) (out : Outgoing) (e : Sending) :
      Moves t now (.writing a b out e) t (out.returnTo a b)
  | drops (i : Fin maxSessions) (e : PendingResp) : Moves t now (.flushFind i e) t (.flushUnpin i)
  | unpins {st st' : Stage} (released : List (Fin maxSessions)) (quiet : Quiet P t st)
      (pins : ∀ i, st.pins.count i = released.count i + st'.pins.count i)
      (alone : st'.pins.tail = []) (before : ∀ i, st.inHand i = [])
      (after : ∀ i, st'.inHand i = []) : Moves t now st (released.foldl unpin t) st'

/-! The lookups. -/

theorem acceptCandidate_live {t : Table} {pkt : WirePacket} {c : Fin maxSessions × AesKey}
    {out : List UInt8 × UInt8} (h : acceptCandidate P t pkt c = some out) :
    (t c.1).inUse = true := by
  have hfilter := (Option.filter_eq_some_iff.mp h).2
  simp only [Bool.and_eq_true, decide_eq_true_eq] at hfilter
  exact hfilter.1.1

/-- A partner is in use when it is found. -/
theorem partnerOf_live {bs : Fin maxSessions → Binding} {i j : Fin maxSessions}
    (h : partnerOf P bs i = some j) : (bs j).inUse = true ∧ (bs j).role = sessionRoleB := by
  unfold partnerOf at h
  split at h
  · split at h
    · rename_i hlive
      cases h
      exact hlive
    · have hverifies := findVerifiedB_eq_some P h
      exact ⟨hverifies.1, hverifies.2.1⟩
  · have hverifies := findVerifiedB_eq_some P h
    exact ⟨hverifies.1, hverifies.2.1⟩

theorem withPartner_moves {t : Table} {now : Nat} {st : Stage} {a : Fin maxSessions}
    {found : Fin maxSessions → Stage} {none : Stage} (quiet : Quiet P t st)
    (before : st.pins = [a]) (after : ∀ b, (found b).pins = [a, b])
    (inHand : ∀ b i, (found b).inHand i = st.inHand i) (hnone : Moves P t now st t none) :
    Moves P t now st (withPartner (findBForA P t a) found none).1
      (withPartner (findBForA P t a) found none).2 := by
  unfold findBForA
  cases hpartner : partnerOf P (bindings t) a with
  | none => exact hnone
  | some b =>
    have hlive : (t b).inUse = true ∧ (t b).role = sessionRoleB := partnerOf_live P hpartner
    exact .pins a b quiet hlive before (after b) (inHand b)

theorem pendingPop_spec (t : Table) (i : Fin maxSessions) (maxAgeMs now : Nat) :
    pendingPop t i maxAgeMs now = (none, t) ∨
      ∃ e rest, (t i).pending = e :: rest ∧ (maxAgeMs ≠ 0 → maxAgeMs ≤ ticksSince now e.sinceMs) ∧
        pendingPop t i maxAgeMs now
          = (some e, Function.update t i { t i with pending := rest }) := by
  unfold pendingPop
  split
  · exact Or.inl rfl
  · rename_i e rest hpending
    split
    · exact Or.inl rfl
    · rename_i hwait
      refine Or.inr ⟨e, rest, hpending, fun hne => Nat.le_of_not_lt fun hlt => ?_, rfl⟩
      exact hwait ⟨hne, hlt⟩

/-! The stages. -/

theorem afterMatch_holds (t : Table) (a : Fin maxSessions) (payload : List UInt8) (flags : UInt8) :
    (afterMatch t a payload flags).pins = [a] ∧
      ∀ i, (afterMatch t a payload flags).inHand i = [] := by
  unfold afterMatch
  repeat' split
  all_goals exact ⟨rfl, fun _ => rfl⟩

theorem afterEmpty_holds (a b : Fin maxSessions) (payload : List UInt8) (junk : Option (Bytes 32)) :
    (afterEmpty a b payload junk).pins = [a, b] ∧
      ∀ i, (afterEmpty a b payload junk).inHand i = [] := by
  unfold afterEmpty
  split
  · exact ⟨rfl, fun _ => rfl⟩
  · cases junk with
    | none => exact ⟨rfl, fun _ => rfl⟩
    | some junk => exact ⟨rfl, fun _ => ite_self _⟩

theorem advance_moves (t : Table) (now : Nat) (inp : Input) (st : Stage) :
    Moves P t now st (advance P t now inp st).1 (advance P t now inp st).2 := by
  cases st with
  | lookup pkt cs =>
    cases cs with
    | nil => exact .keeps (fun _ _ _ => rfl) rfl fun _ => rfl
    | cons c cs =>
      simp only [advance]
      cases haccept : acceptCandidate P t pkt c with
      | none =>
        refine .keeps ?_ rfl fun _ => rfl
        rintro s inp rfl
        simp [SgState.record, haccept]
      | some out => exact .accepts pkt c cs out.1 out.2 (acceptCandidate_live P haccept) haccept
  | matched a payload flags =>
    have hafter := afterMatch_holds t a payload flags
    exact .keeps (fun _ _ _ => rfl) hafter.1 hafter.2
  | coverFind a payload =>
    exact withPartner_moves P (fun _ _ _ => rfl) rfl (fun _ => rfl) (fun _ _ => rfl)
      (.keeps (fun _ _ _ => rfl) rfl fun _ => rfl)
  | coverPop a b payload =>
    simp only [advance]
    rcases pendingPop_spec t a 0 now with hpop | ⟨e, rest, hpending, -, hpop⟩
    · have hafter := afterEmpty_holds a b payload inp.junk
      rw [hpop]
      exact .keeps (fun _ _ _ => rfl) hafter.1 hafter.2
    · rw [hpop]
      exact .pops a b payload e rest hpending
  | setupStore a payload =>
    exact .stores a _ (fun _ _ _ => rfl) rfl (fun _ => rfl) ⟨rfl, rfl, rfl, rfl⟩
  | setupFind a hdr =>
    exact withPartner_moves P (fun _ _ _ => rfl) rfl (fun _ => rfl) (fun _ _ => rfl)
      (.keeps (fun _ _ _ => rfl) rfl fun _ => rfl)
  | setupVerify a b hdr =>
    simp only [advance]
    split
    · exact .keeps (fun _ _ _ => rfl) rfl fun _ => rfl
    · exact .keeps (fun _ _ _ => rfl) rfl fun _ => rfl
  | setupCommit a b hdr =>
    exact .stores a _ (fun _ _ _ => rfl) rfl (fun _ => ite_self _) ⟨rfl, rfl, rfl, rfl⟩
  | setupClear a => exact .stores a _ (fun _ _ _ => rfl) rfl (fun _ => rfl) ⟨rfl, rfl, rfl, rfl⟩
  | requestFind a payload =>
    exact withPartner_moves P (fun _ _ _ => rfl) rfl (fun _ => rfl) (fun _ _ => rfl)
      (.keeps (fun _ _ _ => rfl) rfl fun _ => rfl)
  | requestStore a b payload =>
    simp only [advance]
    split
    · exact .keeps (fun _ _ _ => rfl) rfl fun _ => rfl
    · exact .stores a _ (fun _ _ _ => rfl) rfl (fun _ => rfl) ⟨rfl, rfl, rfl, rfl⟩
  | relaying a b reqHdr =>
    simp only [advance]
    cases inp.reply with
    | none => exact .keeps (fun _ _ _ => rfl) rfl fun _ => rfl
    | some resp =>
      dsimp only
      split
      · exact .keeps (fun _ _ _ => rfl) rfl fun _ => rfl
      · exact .keeps (fun _ _ _ => rfl) rfl fun _ => rfl
  | queueing a b reqHdr resp => exact .queues a b reqHdr resp
  | sending a b out => exact .keeps (fun _ _ _ => rfl) rfl fun _ => rfl
  | writing a b out e => exact .writes a b out e
  | done a b =>
    cases b with
    | none => exact .unpins [a] (fun _ _ _ => rfl) (fun _ => rfl) rfl (fun _ => rfl) fun _ => rfl
    | some b =>
      exact .unpins [a, b] (fun _ _ _ => rfl) (fun _ => rfl) rfl (fun _ => rfl) fun _ => rfl
  | finished => exact .keeps (fun _ _ _ => rfl) rfl fun _ => rfl
  | scanning i =>
    simp only [advance]
    split
    · rename_i hrole
      rcases pendingPop_spec t i pendingResponseMaxWaitMs now with
        hpop | ⟨e, rest, hpending, hwaited, hpop⟩
      · rw [hpop]
        exact .keeps (fun _ _ _ => rfl) rfl fun _ => rfl
      · rw [hpop]
        exact .flushes i e rest hrole hpending (hwaited (by decide))
    · exact .keeps (fun _ _ _ => rfl) rfl fun _ => rfl
  | flushFind i e =>
    exact withPartner_moves P (fun _ _ _ => rfl) rfl (fun _ => rfl) (fun _ _ => rfl) (.drops i e)
  | flushUnpinB i b =>
    refine .unpins [b] (fun _ _ _ => rfl) (fun j => ?_) rfl (fun _ => rfl) fun _ => rfl
    change [i, b].count j = [b].count j + [i].count j
    simp only [List.count_cons, List.count_nil]
    omega
  | flushUnpin i =>
    exact .unpins [i] (fun _ _ _ => rfl) (fun _ => rfl) rfl (fun _ => rfl) fun _ => rfl

end AnonSecNet.Gateway
