import AnonSecNet.MixNode.Handlers
import AnonSecNet.Foundation.Machine

/-! Any number of handler threads on one node: `session_find`, the confirmation after the
MAC check and the nonce check are separate critical sections, taken in any order. -/
namespace AnonSecNet.MixNode
open Octets
variable (P : Primitives)

/-- `MODE_DATA` or `MODE_RETURN`. -/
inductive Mode where
  | data | ret
deriving DecidableEq

def wireHint : Mode → WirePacket → Hint
  | .data, wire => outerHint wire
  | .ret, wire => returnOuterHint (returnHeaderOf wire)

inductive SeenNonce where
  | data (nonce : Bytes nonceBytes)
  | ret (nonce : Bytes returnNonceBytes)
deriving DecidableEq

/-- The MAC check of a thread, on the keys it copied out: the nonce of a packet that
passes. -/
def verifiedNonce (mode : Mode) (wire pad : WirePacket) (keys : SessionKeys) :
    Option SeenNonce :=
  match mode with
  | .data =>
    (packetSphinxPeel P wire keys.headerEncKey keys.headerMacKey pad).map
      fun out => .data out.1.nonce
  | .ret =>
    (packetPeelReturnHeader P (returnHeaderOf wire) keys.headerEncKey keys.headerMacKey
      (returnHeaderOf pad)).map fun out => .ret out.1.nonce

def checkNonce (t : Table) (f : Found) : SeenNonce → Bool × Table
  | .data nonce => sessionCheckNonceByIdx t f.idx f.generation nonce
  | .ret nonce => sessionCheckReturnNonceByIdx t f.idx f.generation nonce

inductive Stage where
  | verified | confirmed | finished
deriving DecidableEq

/-- A handler whose packet passed the MAC check. `domain` and `counter` say which packet
of the session's builder it is; the node does not see them. -/
structure Thread where
  found : Found
  nonce : SeenNonce
  domain : Domain
  counter : Nat
  stage : Stage

/-- `log` lists the counters confirmed in a slot since it was last allocated. -/
structure NodeState where
  table : Table
  threads : List Thread
  log : Fin maxSessions → Domain → List Nat

def NodeState.initial : NodeState := ⟨fun _ => zeroEntry, [], fun _ _ => []⟩

/-- The hint is the session's own for this counter, which belongs to the domain. -/
def Genuine (h : HintState) (hint : Hint) (domain : Domain) (counter : Nat) : Prop :=
  hint = packetDeriveHopHint P h.hintSeed counter ∧
    domain.first ≤ counter ∧ counter < domain.first + 2 ^ 62

instance (h : HintState) (hint : Hint) (domain : Domain) (counter : Nat) :
    Decidable (Genuine P h hint domain counter) := inferInstanceAs (Decidable (_ ∧ _))

inductive NodeAct where
  | extend (master : AesKey) (role : UInt8) (now : Nat)
  | receive (mode : Mode) (wire pad : WirePacket) (now : Nat) (domain : Domain) (counter : Nat)
  | confirm (k : Nat)
  | checkNonce (k : Nat)

/-- `session_find` and the MAC check. The label of the packet must be right. -/
def stepReceive (s : NodeState) (mode : Mode) (wire pad : WirePacket) (now : Nat)
    (domain : Domain) (counter : Nat) : NodeState :=
  match sessionFind s.table (wireHint mode wire) now with
  | (none, _) => s
  | (some f, table) =>
    if Genuine P (s.table f.idx).toHintState (wireHint mode wire) domain counter then
      match verifiedNonce P mode wire pad f.keys with
      | none => { s with table := table }
      | some nonce =>
        { s with table := table, threads := s.threads ++ [⟨f, nonce, domain, counter, .verified⟩] }
    else s

def stepConfirm (s : NodeState) (k : Nat) (th : Thread) : NodeState :=
  { table := sessionConfirmHintMatch P s.table th.found
    threads := s.threads.set k { th with stage := .confirmed }
    log :=
      if SameSession s.table th.found.idx th.found.generation then
        Function.update s.log th.found.idx (Function.update (s.log th.found.idx) th.domain
          (th.counter :: s.log th.found.idx th.domain))
      else s.log }

def nodeStep (s : NodeState) : NodeAct → NodeState
  | .extend master role now =>
    match extendSession P s.table master role now with
    | none => s
    | some (i, table) => { s with table := table, log := Function.update s.log i fun _ => [] }
  | .receive mode wire pad now domain counter => stepReceive P s mode wire pad now domain counter
  | .confirm k =>
    match s.threads[k]? with
    | some th => if th.stage = .verified then stepConfirm P s k th else s
    | none => s
  | .checkNonce k =>
    match s.threads[k]? with
    | some th =>
      if th.stage = .confirmed then
        { s with
          table := (checkNonce s.table th.found th.nonce).2
          threads := s.threads.set k { th with stage := .finished } }
      else s
    | none => s

/-! What one step does to the hint state of the slots. -/

/-- The hint state of a slot in use. -/
def hintView (t : Table) (i : Fin maxSessions) : Option HintState :=
  if (t i).inUse then some (t i).toHintState else none

/-- A slot whose hint state and use are unchanged looks the same. -/
theorem hintView_update {t : Table} {i : Fin maxSessions} {sess : SessionEntry}
    (huse : sess.inUse = (t i).inUse) (hh : sess.toHintState = (t i).toHintState) :
    hintView (Function.update t i sess) = hintView t := by
  funext j
  by_cases hj : j = i
  · subst hj
    simp [hintView, huse, hh]
  · simp [hintView, hj]

theorem hintView_update_inUse {t : Table} {i : Fin maxSessions} {sess : SessionEntry}
    (huse : sess.inUse = true) :
    hintView (Function.update t i sess)
      = Function.update (hintView t) i (some sess.toHintState) := by
  funext j
  by_cases hj : j = i
  · subst hj
    simp [hintView, huse]
  · simp [hintView, hj]

theorem hintView_checkNonce (t : Table) (f : Found) (nonce : SeenNonce) :
    hintView (checkNonce t f nonce).2 = hintView t := by
  cases nonce with
  | data nonce =>
    simp only [checkNonce, sessionCheckNonceByIdx]
    split
    · exact hintView_update rfl rfl
    · rfl
  | ret nonce =>
    simp only [checkNonce, sessionCheckReturnNonceByIdx]
    split
    · exact hintView_update rfl rfl
    · rfl

/-- The action confirms the packet of `th`: its thread passed the MAC check and its slot
still belongs to the session that was found. -/
def Confirms (s : NodeState) (a : NodeAct) (th : Thread) : Prop :=
  ∃ k, a = .confirm k ∧ s.threads[k]? = some th ∧ th.stage = .verified ∧
    SameSession s.table th.found.idx th.found.generation

theorem Confirms.unique {s : NodeState} {a : NodeAct} {th th' : Thread} (h : Confirms s a th)
    (h' : Confirms s a th') : th = th' := by
  obtain ⟨k, rfl, hk, -⟩ := h
  obtain ⟨k', hkk', hk', -⟩ := h'
  cases hkk'
  exact Option.some.inj (hk.symm.trans hk')

/-- The effect of one step: nothing the hint windows see, a new session in a slot, or
the confirmation of one thread's packet. -/
inductive Effect (s : NodeState) (a : NodeAct) (s' : NodeState) : Prop where
  | quiet (idle : ∀ th, ¬ Confirms s a th) (view : hintView s'.table = hintView s.table)
      (log : s'.log = s.log)
  | fresh (idle : ∀ th, ¬ Confirms s a th) (i : Fin maxSessions) (seed : AesKey)
      (view : hintView s'.table
        = Function.update (hintView s.table) i (some (sessionInitHintWindow P seed)))
      (log : s'.log = Function.update s.log i fun _ => [])
  | confirmed (th : Thread) (conf : Confirms s a th)
      (view : hintView s'.table
        = Function.update (hintView s.table) th.found.idx
            (some (sessionAdvanceHintWindow P (s.table th.found.idx).toHintState
              th.found.domain th.found.windowIdx)))
      (log : s'.log = Function.update s.log th.found.idx
        (Function.update (s.log th.found.idx) th.domain
          (th.counter :: s.log th.found.idx th.domain)))

theorem effect_receive (s : NodeState) (mode : Mode) (wire pad : WirePacket) (now : Nat)
    (domain : Domain) (counter : Nat) :
    hintView (stepReceive P s mode wire pad now domain counter).table = hintView s.table ∧
      (stepReceive P s mode wire pad now domain counter).log = s.log := by
  unfold stepReceive
  split
  · exact ⟨rfl, rfl⟩
  · rename_i f table hfind
    have htable := (sessionFind_eq_some hfind).2
    subst htable
    have hview : hintView (Function.update s.table f.idx
        { s.table f.idx with lastActiveMs := now }) = hintView s.table :=
      hintView_update rfl rfl
    split
    · split
      · exact ⟨hview, rfl⟩
      · exact ⟨hview, rfl⟩
    · exact ⟨rfl, rfl⟩

theorem nodeStep_effect (s : NodeState) (a : NodeAct) : Effect P s a (nodeStep P s a) := by
  cases a with
  | extend master role now =>
    have hidle : ∀ th, ¬ Confirms s (.extend master role now) th := by
      rintro th ⟨k, hk, -⟩
      cases hk
    simp only [nodeStep]
    split
    · exact .quiet hidle rfl rfl
    · rename_i i table hext
      obtain ⟨sess, rfl, huse, hh, -⟩ := extendSession_eq_some P hext
      refine .fresh hidle i (packetDeriveHintSeed P master) ?_ rfl
      rw [hintView_update_inUse huse, hh]
  | receive mode wire pad now domain counter =>
    obtain ⟨hview, hlog⟩ := effect_receive P s mode wire pad now domain counter
    refine .quiet ?_ hview hlog
    rintro th ⟨k, hk, -⟩
    cases hk
  | confirm k =>
    simp only [nodeStep]
    split
    · rename_i th hk
      split
      · rename_i hstage
        by_cases hsame : SameSession s.table th.found.idx th.found.generation
        · refine .confirmed th ⟨k, rfl, hk, hstage, hsame⟩ ?_ ?_
          · simp only [stepConfirm, sessionConfirmHintMatch, if_pos hsame]
            exact hintView_update_inUse hsame.1
          · simp only [stepConfirm, if_pos hsame]
        · refine .quiet ?_ ?_ ?_
          · rintro th' ⟨k', hkk', hk', -, hsame'⟩
            cases hkk'
            obtain rfl : th = th' := Option.some.inj (hk.symm.trans hk')
            exact hsame hsame'
          · simp only [stepConfirm, sessionConfirmHintMatch, if_neg hsame]
          · simp only [stepConfirm, if_neg hsame]
      · rename_i hstage
        refine .quiet ?_ rfl rfl
        rintro th' ⟨k', hkk', hk', hstage', -⟩
        cases hkk'
        obtain rfl : th = th' := Option.some.inj (hk.symm.trans hk')
        exact hstage hstage'
    · rename_i hk
      refine .quiet ?_ rfl rfl
      rintro th ⟨k', hkk', hk', -⟩
      cases hkk'
      rw [hk] at hk'
      cases hk'
  | checkNonce k =>
    have hidle : ∀ th, ¬ Confirms s (.checkNonce k) th := by
      rintro th ⟨k', hk', -⟩
      cases hk'
    simp only [nodeStep]
    split
    · split
      · exact .quiet hidle (hintView_checkNonce _ _ _) rfl
      · exact .quiet hidle rfl rfl
    · exact .quiet hidle rfl rfl

/-! The packets under way. -/

/-- Every packet under way has a counter of one of the two domains. -/
def CountersBounded (s : NodeState) : Prop := ∀ th ∈ s.threads, th.counter < 2 ^ 63

theorem first_le (d : Domain) : d.first ≤ 2 ^ 62 := by
  cases d <;> simp [Domain.first, hintCoverCounterBase]

theorem countersBounded_set {s : NodeState} (h : CountersBounded s) {k : Nat} {th : Thread}
    (hk : s.threads[k]? = some th) (stage : Stage) :
    ∀ th' ∈ s.threads.set k { th with stage := stage }, th'.counter < 2 ^ 63 := by
  intro th' hmem
  rcases List.mem_or_eq_of_mem_set hmem with hmem | rfl
  · exact h th' hmem
  · exact h th (List.mem_of_getElem? hk)

theorem countersBounded_step {s : NodeState} (h : CountersBounded s) (a : NodeAct) :
    CountersBounded (nodeStep P s a) := by
  cases a with
  | extend master role now =>
    simp only [nodeStep]
    split <;> exact h
  | receive mode wire pad now domain counter =>
    simp only [nodeStep, stepReceive]
    split
    · exact h
    · split
      · rename_i hgen
        split
        · exact h
        · intro th hth
          rcases List.mem_append.mp hth with hth | hth
          · exact h th hth
          · obtain rfl := List.mem_singleton.mp hth
            have hlt := hgen.2.2
            have hfirst := first_le domain
            simp only
            omega
      · exact h
  | confirm k =>
    simp only [nodeStep]
    split
    · rename_i th hk
      split
      · exact countersBounded_set h hk .confirmed
      · exact h
    · exact h
  | checkNonce k =>
    simp only [nodeStep]
    split
    · rename_i th hk
      split
      · exact countersBounded_set h hk .finished
      · exact h
    · exact h

end AnonSecNet.MixNode
