import AnonSecNet.Gateway.Pins
import AnonSecNet.MixNode.CoverView

/-! The hint filter of `find_a_session` against the search that tries to decrypt under every
sending session. -/
namespace AnonSecNet.Gateway
open Octets Machine
open MixNode (packetAtHop)
variable (P : Primitives)

def IsSending (t : Table) (i : Fin maxSessions) : Prop :=
  (t i).inUse = true ∧ (t i).role = sessionRoleA

instance (t : Table) (i : Fin maxSessions) : Decidable (IsSending t i) :=
  inferInstanceAs (Decidable (_ ∧ _))

/-- The snapshot without the hint filter. -/
def sendingSessions (t : Table) : List (Fin maxSessions × AesKey) :=
  (List.finRange maxSessions).filterMap fun i =>
    if (t i).inUse = true ∧ (t i).role = sessionRoleA then some (i, (t i).e2eKey) else none

/-- The search over a snapshot. `live` is the table at the time when a slot is confirmed. -/
def search (live : Fin maxSessions → Table) (pkt : WirePacket) :
    List (Fin maxSessions × AesKey) → Option (Fin maxSessions × List UInt8 × UInt8)
  | [] => none
  | c :: cs =>
    match acceptCandidate P (live c.1) pkt c with
    | some out => some (c.1, out)
    | none => search live pkt cs

/-- The session's own answer to a packet that its key opens. -/
def answerOf (live : Fin maxSessions → Table) (a : Fin maxSessions) (key : AesKey)
    (payload : List UInt8) (flags : UInt8) : Option (Fin maxSessions × List UInt8 × UInt8) :=
  if ((live a a).inUse = true ∧ (live a a).e2eKey = key) ∧
      accepts P (live a) a payload flags = true then some (a, payload, flags)
  else none

/-- Every session has the hint of its key. -/
def HintsDerived (t : Table) : Prop :=
  ∀ i, (t i).inUse = true → (t i).sgHint = packetDeriveSgHint P (t i).e2eKey

/-! The search on one candidate that can be opened. -/

theorem search_none {live : Fin maxSessions → Table} {pkt : WirePacket}
    {cs : List (Fin maxSessions × AesKey)}
    (h : ∀ c ∈ cs, acceptCandidate P (live c.1) pkt c = none) : search P live pkt cs = none := by
  induction cs with
  | nil => rfl
  | cons c cs ih =>
    unfold search
    rw [h c List.mem_cons_self]
    exact ih fun c' hc' => h c' (List.mem_cons_of_mem c hc')

theorem acceptCandidate_sealed {t : Table} {pkt : WirePacket} {c : Fin maxSessions × AesKey}
    (h : packetSphinxUnwrap P pkt c.2 = none) : acceptCandidate P t pkt c = none := by
  unfold acceptCandidate
  rw [h]
  rfl

theorem acceptCandidate_opened {live : Fin maxSessions → Table} {pkt : WirePacket}
    {a : Fin maxSessions} {key : AesKey} {payload : List UInt8} {flags : UInt8}
    (hopen : packetSphinxUnwrap P pkt key = some (payload, flags)) :
    (acceptCandidate P (live a) pkt (a, key)).map (Prod.mk a)
      = answerOf P live a key payload flags := by
  unfold acceptCandidate answerOf
  rw [hopen, Option.filter_some]
  simp only [Bool.and_eq_true, decide_eq_true_eq]
  split <;> rfl

/-- Nothing but the candidate whose key opens the packet counts. -/
theorem search_eq_answer {live : Fin maxSessions → Table} {pkt : WirePacket}
    {cs : List (Fin maxSessions × AesKey)} {a : Fin maxSessions} {key : AesKey}
    {payload : List UInt8} {flags : UInt8}
    (hopen : packetSphinxUnwrap P pkt key = some (payload, flags)) (hmem : (a, key) ∈ cs)
    (hothers : ∀ c ∈ cs, c ≠ (a, key) → packetSphinxUnwrap P pkt c.2 = none) :
    search P live pkt cs = answerOf P live a key payload flags := by
  have hanswer : (acceptCandidate P (live a) pkt (a, key)).map (Prod.mk a)
      = answerOf P live a key payload flags := acceptCandidate_opened P hopen
  induction cs with
  | nil => cases hmem
  | cons c cs ih =>
    have htail : ∀ c' ∈ cs, c' ≠ (a, key) → packetSphinxUnwrap P pkt c'.2 = none :=
      fun c' hc' => hothers c' (List.mem_cons_of_mem c hc')
    unfold search
    by_cases hc : c = (a, key)
    · subst hc
      rw [← hanswer]
      cases haccept : acceptCandidate P (live a) pkt (a, key) with
      | some out => rfl
      | none =>
        refine search_none P fun c' hc' => ?_
        by_cases hsame : c' = (a, key)
        · rw [hsame]
          exact haccept
        · exact acceptCandidate_sealed P (htail c' hc' hsame)
    · rw [acceptCandidate_sealed P (hothers c List.mem_cons_self hc)]
      exact ih ((List.mem_cons.mp hmem).resolve_left fun heq => hc heq.symm) htail

/-! The two snapshots. -/

theorem mem_sendingSessions {t : Table} {c : Fin maxSessions × AesKey} :
    c ∈ sendingSessions t ↔ IsSending t c.1 ∧ (t c.1).e2eKey = c.2 := by
  obtain ⟨i, key⟩ := c
  simp only [sendingSessions, List.mem_filterMap, List.mem_finRange, true_and,
    Option.ite_none_right_eq_some, Option.some.injEq, Prod.mk.injEq]
  constructor
  · rintro ⟨j, hj, rfl, rfl⟩
    exact ⟨hj, rfl⟩
  · rintro ⟨hi, rfl⟩
    exact ⟨i, hi, rfl, rfl⟩

theorem mem_candidates {t : Table} {pkt : WirePacket} {c : Fin maxSessions × AesKey} :
    c ∈ candidates t pkt ↔ c ∈ sendingSessions t ∧
      (t c.1).sgHint = pkt.read (wirePacketSize - sgHintBytes) sgHintBytes := by
  obtain ⟨i, key⟩ := c
  unfold candidates sendingSessions
  rw [List.mem_filterMap, List.mem_filterMap]
  constructor
  · rintro ⟨j, hj, h⟩
    obtain ⟨⟨huse, hrole, hhint⟩, heq⟩ := Option.ite_none_right_eq_some.mp h
    cases heq
    exact ⟨⟨i, hj, Option.ite_none_right_eq_some.mpr ⟨⟨huse, hrole⟩, rfl⟩⟩, hhint⟩
  · rintro ⟨⟨j, hj, h⟩, hhint⟩
    obtain ⟨⟨huse, hrole⟩, heq⟩ := Option.ite_none_right_eq_some.mp h
    cases heq
    exact ⟨i, hj, Option.ite_none_right_eq_some.mpr ⟨⟨huse, hrole, hhint⟩, rfl⟩⟩

/-- One lookup in one critical section is the search over the filtered snapshot. -/
theorem firstCandidate_eq_search (t : Table) (pkt : WirePacket) :
    firstCandidate P t pkt = search P (fun _ => t) pkt (candidates t pkt) := by
  have hlist : ∀ is : List (Fin maxSessions),
      (is.findSome? fun i => (tryCandidate P t pkt i).map fun out => (i, out))
        = search P (fun _ => t) pkt (is.filterMap fun i =>
            if (t i).inUse = true ∧ (t i).role = sessionRoleA ∧
                (t i).sgHint = pkt.read (wirePacketSize - sgHintBytes) sgHintBytes then
              some (i, (t i).e2eKey)
            else none) := by
    intro is
    induction is with
    | nil => rfl
    | cons i is ih =>
      rw [List.findSome?_cons, ih, List.filterMap_cons]
      unfold tryCandidate
      by_cases hmatch : (t i).inUse = true ∧ (t i).role = sessionRoleA ∧
          (t i).sgHint = pkt.read (wirePacketSize - sgHintBytes) sgHintBytes
      · have haccept : acceptCandidate P t pkt (i, (t i).e2eKey)
            = (packetSphinxUnwrap P pkt (t i).e2eKey).filter
                fun out => accepts P t i out.1 out.2 := by
          simp only [acceptCandidate, hmatch.1, true_and, decide_true, Bool.true_and]
        rw [if_pos hmatch, if_pos hmatch]
        dsimp only
        rw [search, haccept]
        cases (packetSphinxUnwrap P pkt (t i).e2eKey).filter
          fun out => accepts P t i out.1 out.2 <;> rfl
      · rw [if_neg hmatch, if_neg hmatch]
        rfl
  unfold firstCandidate candidates
  exact hlist _

/-! Every reachable table has its hints. -/

theorem sgHint_pin (t : Table) (a i : Fin maxSessions) : (pin t a i).sgHint = (t i).sgHint :=
  update_keeps SgSession.sgHint rfl

theorem sgHint_unpin (t : Table) (a i : Fin maxSessions) : (unpin t a i).sgHint = (t i).sgHint :=
  update_keeps SgSession.sgHint rfl

theorem advance_hint (t : Table) (now : Nat) (inp : Input) (st : Stage) (i : Fin maxSessions) :
    ((advance P t now inp st).1 i).sgHint = (t i).sgHint := by
  have hpartner : ∀ (a : Fin maxSessions) (found : Fin maxSessions → Stage) (none : Stage),
      ((withPartner (findBForA P t a) found none).1 i).sgHint = (t i).sgHint := by
    intro a found none
    unfold withPartner findBForA
    cases partnerOf P (bindings t) a with
    | none => rfl
    | some b => exact sgHint_pin t b i
  have hpop : ∀ (a : Fin maxSessions) (maxAgeMs : Nat),
      ((pendingPop t a maxAgeMs now).2 i).sgHint = (t i).sgHint := by
    intro a maxAgeMs
    rcases pendingPop_spec t a maxAgeMs now with h | ⟨e, rest, -, -, h⟩
    · rw [h]
    · rw [h]
      exact update_keeps SgSession.sgHint rfl
  cases st with
  | lookup pkt cs =>
    cases cs with
    | nil => rfl
    | cons c cs =>
      simp only [advance]
      split
      · exact (sgHint_pin _ c.1 i).trans (update_keeps SgSession.sgHint rfl)
      · rfl
  | matched a payload flags => rfl
  | coverFind a payload => exact hpartner _ _ _
  | coverPop a b payload =>
    have h := hpop a 0
    simp only [advance]
    split
    · rename_i e t' heq
      rwa [heq] at h
    · rename_i t' heq
      rwa [heq] at h
  | setupStore a payload => exact update_keeps SgSession.sgHint rfl
  | setupFind a hdr => exact hpartner _ _ _
  | setupVerify a b hdr => rfl
  | setupCommit a b hdr => exact update_keeps SgSession.sgHint rfl
  | setupClear a => exact update_keeps SgSession.sgHint rfl
  | requestFind a payload => exact hpartner _ _ _
  | requestStore a b payload =>
    simp only [advance]
    split
    · rfl
    · exact update_keeps SgSession.sgHint rfl
  | relaying a b reqHdr => rfl
  | queueing a b reqHdr resp =>
    simp only [advance, sendResponse]
    split
    · rfl
    · exact update_keeps SgSession.sgHint rfl
  | sending a b out => rfl
  | writing a b out e => rfl
  | done a b =>
    cases b with
    | none => exact sgHint_unpin t a i
    | some b => exact (sgHint_unpin _ b i).trans (sgHint_unpin t a i)
  | finished => rfl
  | scanning a =>
    have h := hpop a pendingResponseMaxWaitMs
    simp only [advance]
    split
    · split
      · rename_i e t' heq
        rw [heq] at h
        exact (sgHint_pin t' a i).trans h
      · rename_i t' heq
        rwa [heq] at h
    · rfl
  | flushFind a e => exact hpartner _ _ _
  | flushUnpinB a b => exact sgHint_unpin t b i
  | flushUnpin a => exact sgHint_unpin t a i

theorem HintsDerived.step {s : SgState} (h : HintsDerived P s.table) (act : SgAct) :
    HintsDerived P (sgStep P s act).table := by
  intro i huse
  cases act with
  | tick ms => exact h i huse
  | extend master role =>
    cases halloc : sessAlloc s.table s.clock with
    | none =>
      rw [sgStep_refused P halloc] at huse ⊢
      exact h i huse
    | some j =>
      rw [sgStep_extend P halloc] at huse ⊢
      simp only [SgState.establish] at huse ⊢
      by_cases hi : i = j
      · subst hi
        rw [Function.update_self]
        rfl
      · rw [Function.update_of_ne hi] at huse ⊢
        exact h i huse
  | arrive pkt => exact h i huse
  | advance k inp =>
    cases hk : s.threads[k]? with
    | none =>
      rw [sgStep_idle P hk] at huse ⊢
      exact h i huse
    | some st =>
      rw [sgStep_advance P hk] at huse ⊢
      dsimp only at huse ⊢
      have hid := (advance_moves P s.table s.clock inp st).identity P i
      simp only [identity, Prod.mk.injEq] at hid
      rw [advance_hint, hid.2.2]
      exact h i (hid.1 ▸ huse)

theorem hintsDerived_run (acts : List SgAct) :
    HintsDerived P (run (sgStep P) acts .initial).table := by
  have hrun : ∀ (acts : List SgAct) (s : SgState), HintsDerived P s.table →
      HintsDerived P (run (sgStep P) acts s).table := by
    intro acts
    induction acts with
    | nil => exact fun s h => h
    | cons act acts ih => exact fun s h => ih _ (h.step P act)
  refine hrun acts _ fun i huse => ?_
  cases huse

/-! The filter. -/

/-- Whenever a packet of a sending session arrives: whatever becomes of the slots before they are
confirmed, the filtered search and the one over all sending sessions give the same answer, the
session's own. -/
theorem hint_filter_agrees {t : Table} {a : Fin maxSessions} (ha : IsSending t a)
    (hstored : (t a).sgHint = packetDeriveSgHint P (t a).e2eKey)
    (hdistinct : ∀ i j, IsSending t i → IsSending t j → (t i).e2eKey = (t j).e2eKey → i = j)
    {path : SphinxPath} (hkey : path.e2eKey = (t a).e2eKey)
    (hhint : path.sgHint = packetDeriveSgHint P path.e2eKey)
    {payload : List UInt8} {flags : UInt8} {ctr : Nat} {rnd : SphinxRandom}
    {pads : Fin nPathHops → WirePacket} {pkt out : WirePacket}
    (hbuild : packetSphinxBuild P path payload flags ctr rnd = some pkt)
    (hout : packetAtHop P path pads pkt nPathHops = some out)
    (hsealed : ∀ i, IsSending t i → (t i).e2eKey ≠ path.e2eKey →
      P.gcmOpen (t i).e2eKey rnd.gcmNonce
        (P.gcmSeal path.e2eKey rnd.gcmNonce (innerBuffer flags payload)).1
        (P.gcmSeal path.e2eKey rnd.gcmNonce (innerBuffer flags payload)).2 = none)
    (live : Fin maxSessions → Table) :
    search P live out (candidates t out) = answerOf P live a (t a).e2eKey payload flags ∧
      search P live out (sendingSessions t) = answerOf P live a (t a).e2eKey payload flags := by
  obtain ⟨hpayload, hsect⟩ := MixNode.section_of_build P path ctr (-1) rnd hbuild hout
  have hread := MixNode.sgHint_of_build P path ctr (-1) rnd hbuild hout
  have hopen : packetSphinxUnwrap P out (t a).e2eKey = some (payload, flags) := by
    rw [← hkey]
    exact packetSphinxUnwrap_section P hpayload hsect rfl
  have hmem : (a, (t a).e2eKey) ∈ sendingSessions t := mem_sendingSessions.mpr ⟨ha, rfl⟩
  have hothers : ∀ c ∈ sendingSessions t, c ≠ (a, (t a).e2eKey) →
      packetSphinxUnwrap P out c.2 = none := by
    rintro ⟨i, key⟩ hc hne
    obtain ⟨hi, hik⟩ := mem_sendingSessions.mp hc
    dsimp only at hi hik ⊢
    subst hik
    have hkeys : (t i).e2eKey ≠ path.e2eKey := by
      intro heq
      obtain rfl := hdistinct i a hi ha (heq.trans hkey)
      exact hne rfl
    exact packetSphinxUnwrap_other P hpayload hsect rfl (hsealed i hi hkeys)
  have hfiltered : (a, (t a).e2eKey) ∈ candidates t out :=
    mem_candidates.mpr ⟨hmem, by rw [hstored, ← hkey, ← hhint, hread]⟩
  exact ⟨search_eq_answer P hopen hfiltered fun c hc => hothers c (mem_candidates.mp hc).1,
    search_eq_answer P hopen hmem hothers⟩

/-- Two sending sessions. -/
def twoSenders : Table :=
  (run (sgStep .sample)
    [.extend (sampleMaster 3) sessionRoleA, .extend (sampleMaster 4) sessionRoleA]
    .initial).table

theorem hint_filter_agrees_twoSenders :
    ∃ pkt out, packetSphinxBuild .sample .sample (List.replicate returnHeaderSize 0) pktDummy 0
        (.sample 0) = some pkt ∧
      packetAtHop .sample .sample (fun _ => Bytes.zero _) pkt nPathHops = some out ∧
      search .sample (fun _ => twoSenders) out (candidates twoSenders out)
        = some (0, List.replicate returnHeaderSize 0, pktDummy) := by
  have hbuilds : ((packetSphinxBuild .sample .sample (List.replicate returnHeaderSize 0) pktDummy 0
      (.sample 0)).bind fun pkt => packetAtHop .sample .sample (fun _ => Bytes.zero _) pkt
        nPathHops).isSome := by
    decide +kernel
  obtain ⟨out, hboth⟩ := Option.isSome_iff_exists.mp hbuilds
  obtain ⟨pkt, hbuild, hout⟩ := Option.bind_eq_some_iff.mp hboth
  have hslots : ∀ i, IsSending twoSenders i → i = 0 ∨ i = 1 := by
    intro i hi
    have huse := hi.1
    revert i
    decide +kernel
  have hzero : IsSending twoSenders 0 ∧ (twoSenders 0).e2eKey = sampleMaster 3 := by
    decide +kernel
  have hone : (twoSenders 1).e2eKey = sampleMaster 4 := by decide +kernel
  have hne : sampleMaster 3 ≠ sampleMaster 4 := by decide
  refine ⟨pkt, out, hbuild, hout, ?_⟩
  have hagree := hint_filter_agrees .sample hzero.1
    (hintsDerived_run .sample _ 0 hzero.1.1) ?_ hzero.2.symm rfl hbuild hout ?_ fun _ => twoSenders
  · rw [hagree.1]
    decide +kernel
  · intro i j hi hj heq
    rcases hslots i hi with rfl | rfl <;> rcases hslots j hj with rfl | rfl
    · rfl
    · exact absurd (hzero.2.symm.trans (heq.trans hone)) hne
    · exact absurd (hzero.2.symm.trans (heq.symm.trans hone)) hne
    · rfl
  · intro i hi hkey
    rcases hslots i hi with rfl | rfl
    · exact absurd hzero.2 hkey
    · rw [hone]
      decide +kernel

end AnonSecNet.Gateway
