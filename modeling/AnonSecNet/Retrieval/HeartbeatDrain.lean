import AnonSecNet.Retrieval.Freshness

/-! How `heartbeat_thread` works off the pending handshakes: a round lists what fits into one
reply, and the workers of the sender answer what is its own. -/
namespace AnonSecNet.Retrieval
open Octets Cache Gateway Packing
open Sender (CString SenderState uploadContent sampleKey)

def heartbeatDrainMax : Nat := 20

variable (st : SenderState) (data : CString → List UInt8)
  (order : List (CString × PubKey) → List (CString × PubKey)) (now : Nat)

/-- `respond_worker` for one entry of a reply, as far as the cache server sees it: `data` is
what it sends for a wire key of the sender's own. -/
def respondWork (s : CacheState) (entry : CString × PubKey) : CacheState :=
  if (respondLookup st entry.1).isSome then
    match respondRequest entry.1 (data entry.1) with
    | some app => (relay s app now []).2
    | none => s
  else s

/-- One HEARTBEAT: the length of the reply if the gateway passes it on, and the cache server
behind the workers, whose answers arrive in some order. -/
def heartbeatRound (s : CacheState) : Option Nat × CacheState :=
  match (relay s heartbeatRequest now []).1 with
  | none => (none, s)
  | some reply =>
    (some reply.length, (order (dispatched reply)).foldl (respondWork st data now) s)

def heartbeatDrain : Nat → CacheState → CacheState
  | 0, s => s
  | rounds + 1, s =>
    match heartbeatRound st data order now s with
    | (none, s) => s
    | (some rlen, s) =>
      if rlen < 1 ∨ rlen < maxInnerPayload - 80 then s else heartbeatDrain rounds s

def heartbeatTick (s : CacheState) : CacheState :=
  heartbeatDrain st data order now heartbeatDrainMax s

/-! What is to be answered. -/

def wireName (p : PendingHandshake) : CString := stringOf p.key.1

/-- The content key of the entry is the sender's own. -/
def ownEntry (s : CacheState) (i : Fin maxPending) : Bool :=
  (respondLookup st (wireName (s.pending i))).isSome

def waitingSlots (s : CacheState) : List (Fin maxPending) :=
  (List.finRange maxPending).filter fun i => (s.pending i).inUse && !(s.pending i).ready

def slotSize (s : CacheState) (i : Fin maxPending) : Nat := entrySize (s.pending i)

/-- The slots that fit into the reply. -/
def listedSlots (s : CacheState) : List (Fin maxPending) :=
  packed (slotSize s) (maxInnerPayload - 1) (waitingSlots s)

def OwnAnswered (s : CacheState) : Prop :=
  ∀ i, (s.pending i).inUse = true → ownEntry st s i = true → (s.pending i).ready = true

/-- The entry fits into a reply behind the entries before it that are not the sender's. -/
def FitsBehind (s : CacheState) (i : Fin maxPending) : Prop :=
  total (slotSize s) (ahead (ownEntry st s) (waitingSlots s) i) + slotSize s i
    ≤ maxInnerPayload - 1

instance (s : CacheState) (i : Fin maxPending) : Decidable (FitsBehind st s i) :=
  inferInstanceAs (Decidable (_ ≤ _))

/-- What waits after `n` replies, when the sender's own entries of each are answered. -/
def waitingAfter (s : CacheState) (n : Nat) : List (Fin maxPending) :=
  (leftOver (slotSize s) (ownEntry st s) (maxInnerPayload - 1))^[n] (waitingSlots s)

/-- As long as an entry of the sender's own waits, the reply fits behind the nonce. -/
def RepliesPass (s : CacheState) : Prop :=
  ∀ n, (∃ i ∈ waitingAfter st s n, ownEntry st s i = true) →
    total (slotSize s) (packed (slotSize s) (maxInnerPayload - 1) (waitingAfter st s n))
      ≤ respCap .heartbeat - 1

/-- The table as the cache server keeps it, and workers that come through with their answers. -/
structure Drainable (s : CacheState) : Prop where
  distinct : ∀ i j, (s.pending i).inUse = true → (s.pending j).inUse = true →
    (s.pending i).key = (s.pending j).key → i = j
  plain : ∀ i, 0 ∉ (s.pending i).key.1
  answered : ∀ i, (s.pending i).inUse = true → ownEntry st s i = true →
    (respondRequest (wireName (s.pending i)) (data (wireName (s.pending i)))).isSome ∧
      ecPubkeyLen + 2 ≤ (data (wireName (s.pending i))).length ∧
      (data (wireName (s.pending i))).length ≤ maxRespData

/-! The workers. -/

/-- The same entries, answered or not. -/
def SameEntries (s s' : CacheState) : Prop :=
  ∀ i, (s'.pending i).key = (s.pending i).key ∧ (s'.pending i).inUse = (s.pending i).inUse

section
variable {st data order now} {s s' : CacheState}

theorem SameEntries.refl (s : CacheState) : SameEntries s s := fun _ => ⟨rfl, rfl⟩

theorem SameEntries.trans {s'' : CacheState} (h : SameEntries s s') (h' : SameEntries s' s'') :
    SameEntries s s'' :=
  fun i => ⟨(h' i).1.trans (h i).1, (h' i).2.trans (h i).2⟩

theorem SameEntries.ownEntry (h : SameEntries s s') (i : Fin maxPending) :
    ownEntry st s' i = ownEntry st s i := by
  unfold Retrieval.ownEntry wireName
  rw [(h i).1]

theorem Drainable.congr (h : Drainable st data s) (hsame : SameEntries s s') :
    Drainable st data s' where
  distinct := fun i j hi hj hkey => h.distinct i j ((hsame i).2 ▸ hi) ((hsame j).2 ▸ hj)
    ((hsame i).1.symm.trans (hkey.trans (hsame j).1))
  plain := fun i => (hsame i).1 ▸ h.plain i
  answered := fun i hi hown => by
    unfold wireName
    rw [(hsame i).1]
    exact h.answered i ((hsame i).2 ▸ hi) (hsame.ownEntry i ▸ hown)

theorem Drainable.wireName_eq (h : Drainable st data s) (i : Fin maxPending) :
    (wireName (s.pending i)).1 = (s.pending i).key.1 :=
  List.takeWhile_eq_self_iff.mpr fun c hc => by
    rw [decide_eq_true_eq]
    rintro rfl
    exact h.plain i hc

theorem Drainable.find (h : Drainable st data s) {i : Fin maxPending}
    (hi : (s.pending i).inUse = true) : pendingFind s (s.pending i).key = some i := by
  cases hfind : pendingFind s (s.pending i).key with
  | none => exact absurd rfl (pendingFind_eq_none.mp hfind i hi)
  | some j =>
    obtain ⟨hj, hkey⟩ := pendingFind_eq_some hfind
    rw [h.distinct j i hj hi hkey]

theorem Drainable.wireName_inj (h : Drainable st data s) {i j : Fin maxPending}
    (hi : (s.pending i).inUse = true) (hj : (s.pending j).inUse = true)
    (hname : wireName (s.pending i) = wireName (s.pending j)) : i = j := by
  apply h.distinct i j hi hj
  apply Subtype.ext
  rw [← h.wireName_eq i, ← h.wireName_eq j, hname]

/-- The worker of an entry makes it ready if it is the sender's own, and nothing else. -/
theorem Drainable.respondWork (now : Nat) (h : Drainable st data s) {i : Fin maxPending}
    {entry : CString × PubKey} (hi : (s.pending i).inUse = true)
    (hentry : entry.1 = wireName (s.pending i)) :
    SameEntries s (respondWork st data now s entry) ∧
      ∀ j, (s.pending j).inUse = true →
        (((respondWork st data now s entry).pending j).ready = true ↔
          (s.pending j).ready = true ∨
            (ownEntry st s j = true ∧ wireName (s.pending j) = entry.1)) := by
  unfold Retrieval.respondWork
  rw [hentry]
  by_cases hown : (respondLookup st (wireName (s.pending i))).isSome = true
  · have hmine : ownEntry st s i = true := hown
    obtain ⟨happ, hlo, hhi⟩ := h.answered i hi hmine
    obtain ⟨app, happ⟩ := Option.isSome_iff_exists.mp happ
    obtain ⟨htype, hkey, hdata⟩ := respondRequest_eq_some happ
    have hcache : cacheKey app.key = (s.pending i).key := by
      apply Subtype.ext
      have hplain := h.wireName_eq i
      unfold cacheKey
      dsimp only
      rw [hkey]
      rw [hplain]
      exact hplain
    have hroom : ecPubkeyLen + 2 ≤ app.data.1.length ∧ app.data.1.length ≤ maxRespData := by
      rw [hdata]
      exact ⟨hlo, hhi⟩
    have hrelay : (relay s app now []).2 = s.setPending i
        { s.pending i with respData := ⟨app.data.1, hroom.2⟩, ready := true } := by
      unfold relay relayAck
      rw [htype]
      dsimp only
      rw [handleConnection_frame, hcache]
      change (handleHandshakeRespond s (s.pending i).key app.data).2 = _
      unfold handleHandshakeRespond
      rw [dif_pos hroom, h.find hi]
    rw [if_pos hown, happ]
    dsimp only
    rw [hrelay]
    refine ⟨fun j => ?_, fun j hj => ?_⟩
    · by_cases hji : j = i
      · subst hji
        rw [pending_setPending_self]
        exact ⟨rfl, rfl⟩
      · rw [pending_setPending_of_ne hji]
        exact ⟨rfl, rfl⟩
    · by_cases hji : j = i
      · subst hji
        rw [pending_setPending_self]
        simp [hmine]
      · rw [pending_setPending_of_ne hji]
        have hname : wireName (s.pending j) ≠ wireName (s.pending i) :=
          fun heq => hji (h.wireName_inj hj hi heq)
        simp [hname]
  · rw [if_neg hown]
    refine ⟨.refl s, fun j hj => ?_⟩
    have hother : ¬ (ownEntry st s j = true ∧ wireName (s.pending j) = wireName (s.pending i)) := by
      rintro ⟨hmine, hname⟩
      rw [h.wireName_inj hj hi hname] at hmine
      exact hown hmine
    simp only [hother, or_false]

/-- All workers of a round. -/
theorem Drainable.works (now : Nat) (h : Drainable st data s) {entries : List (CString × PubKey)}
    (hentries : ∀ entry ∈ entries, ∃ i, (s.pending i).inUse = true ∧
      entry.1 = wireName (s.pending i)) :
    SameEntries s (entries.foldl (Retrieval.respondWork st data now) s) ∧
      ∀ j, (s.pending j).inUse = true →
        (((entries.foldl (Retrieval.respondWork st data now) s).pending j).ready = true ↔
          (s.pending j).ready = true ∨
            (ownEntry st s j = true ∧ wireName (s.pending j) ∈ entries.map Prod.fst)) := by
  induction entries generalizing s with
  | nil => exact ⟨.refl s, fun j _ => by simp⟩
  | cons entry entries ih =>
    obtain ⟨i, hi, hentry⟩ := hentries entry List.mem_cons_self
    obtain ⟨hsame, hready⟩ := h.respondWork now hi hentry
    have hname (j : Fin maxPending) :
        wireName ((Retrieval.respondWork st data now s entry).pending j)
          = wireName (s.pending j) := by
      unfold wireName
      rw [(hsame j).1]
    obtain ⟨hsame', hready'⟩ := ih (h.congr hsame) fun e he => by
      obtain ⟨k, hk, hek⟩ := hentries e (List.mem_cons_of_mem _ he)
      exact ⟨k, ((hsame k).2).trans hk, hek.trans (hname k).symm⟩
    refine ⟨hsame.trans hsame', fun j hj => ?_⟩
    rw [List.foldl_cons, hready' j (((hsame j).2).trans hj), hready j hj, hsame.ownEntry j,
      hname j, List.map_cons, List.mem_cons]
    constructor
    · rintro ((hold | ⟨hmine, heq⟩) | ⟨hmine, hmem⟩)
      · exact .inl hold
      · exact .inr ⟨hmine, .inl heq⟩
      · exact .inr ⟨hmine, .inr hmem⟩
    · rintro (hold | ⟨hmine, heq | hmem⟩)
      · exact .inl (.inl hold)
      · exact .inl (.inr ⟨hmine, heq⟩)
      · exact .inr ⟨hmine, hmem⟩

/-! The rounds. -/

theorem listed_eq (s : CacheState) : s.listed = (listedSlots s).map s.pending := by
  have hwaiting : s.waiting = (waitingSlots s).map s.pending := by
    unfold CacheState.waiting waitingOf waitingSlots
    rw [List.ofFn_eq_map, List.filter_map]
    rfl
  unfold CacheState.listed listedSlots
  rw [hwaiting, packed_map]
  rfl

theorem mem_waitingSlots {i : Fin maxPending} :
    i ∈ waitingSlots s ↔ (s.pending i).inUse = true ∧ (s.pending i).ready = false := by
  unfold waitingSlots
  simp

theorem sorted_waitingSlots (s : CacheState) : (waitingSlots s).Pairwise (· < ·) :=
  (List.pairwise_lt_finRange maxPending).filter _

theorem listedSlots_subset : listedSlots s ⊆ waitingSlots s :=
  (packed_isPrefix _ _ _).subset

theorem length_reply (s : CacheState) :
    (handleHeartbeat s).length = 1 + total (slotSize s) (listedSlots s) := by
  rw [handleHeartbeat_listed, List.length_cons, length_entries, listed_eq, Nat.add_comm]
  unfold total slotSize
  rw [List.map_map]
  rfl

theorem ownAnswered_iff : OwnAnswered st s ↔ ∀ i ∈ waitingSlots s, ownEntry st s i = false := by
  unfold OwnAnswered
  constructor
  · intro h i hi
    obtain ⟨huse, hready⟩ := mem_waitingSlots.mp hi
    rw [← Bool.not_eq_true]
    intro hown
    exact Bool.noConfusion (hready.symm.trans (h i huse hown))
  · intro h i huse hown
    by_contra hready
    rw [Bool.not_eq_true] at hready
    exact Bool.noConfusion ((h i (mem_waitingSlots.mpr ⟨huse, hready⟩)).symm.trans hown)

/-- One step of the waiting list, as the library has it. -/
def passOf (st : SenderState) (s : CacheState) : List (Fin maxPending) → List (Fin maxPending) :=
  pass (slotSize s) (ownEntry st s) (maxInnerPayload - 1) (respCap .heartbeat - 1)

theorem SameEntries.passOf (h : SameEntries s s') : passOf st s' = passOf st s := by
  have hsize : slotSize s' = slotSize s := by
    funext i
    unfold slotSize entrySize
    rw [(h i).1]
  have hown : Retrieval.ownEntry st s' = Retrieval.ownEntry st s := funext h.ownEntry
  unfold Retrieval.passOf
  rw [hsize, hown]

theorem repliesPass_of_total (h : total (slotSize s) (waitingSlots s) ≤ respCap .heartbeat - 1) :
    RepliesPass st s := by
  intro n _
  have hpacked := (packed_isPrefix (slotSize s) (maxInnerPayload - 1) (waitingAfter st s n)).sublist
  have hafter : (waitingAfter st s n).Sublist (waitingSlots s) :=
    iterate_sublist (leftOver_sublist (slotSize s)) n
  exact (total_sublist (slotSize s) (hpacked.trans hafter)).trans h

variable (horder : ∀ l, (order l).Perm l)
include horder

theorem Drainable.round (now : Nat) (h : Drainable st data s) :
    SameEntries s (heartbeatRound st data order now s).2 ∧
      waitingSlots (heartbeatRound st data order now s).2 = passOf st s (waitingSlots s) := by
  have hcap : respCap .heartbeat < (handleHeartbeat s).length ↔
      ¬ total (slotSize s) (packed (slotSize s) (maxInnerPayload - 1) (waitingSlots s))
        ≤ respCap .heartbeat - 1 := by
    have hlen := length_reply s
    have hpos : 1 ≤ respCap .heartbeat := by decide
    unfold listedSlots at hlen
    omega
  unfold heartbeatRound passOf Packing.pass
  rw [relay_heartbeat_eq]
  by_cases hover : respCap .heartbeat < (handleHeartbeat s).length
  · rw [if_pos hover, if_neg (hcap.mp hover)]
    exact ⟨.refl s, rfl⟩
  · rw [if_neg hover, if_pos (not_not.mp (mt hcap.mpr hover))]
    dsimp only
    have hdispatched : dispatched (handleHeartbeat s)
        = (listedSlots s).map fun i => (wireName (s.pending i), (s.pending i).rEphemeralPub) := by
      rw [dispatched_heartbeat, listed_eq, List.map_map]
      rfl
    have hmem (entry : CString × PubKey) : entry ∈ order (dispatched (handleHeartbeat s)) ↔
        ∃ i ∈ listedSlots s, (wireName (s.pending i), (s.pending i).rEphemeralPub) = entry := by
      rw [(horder _).mem_iff, hdispatched, List.mem_map]
    have hentries : ∀ entry ∈ order (dispatched (handleHeartbeat s)), ∃ i,
        (s.pending i).inUse = true ∧ entry.1 = wireName (s.pending i) := by
      intro entry he
      obtain ⟨i, hi, rfl⟩ := (hmem entry).mp he
      exact ⟨i, (mem_waitingSlots.mp (listedSlots_subset hi)).1, rfl⟩
    obtain ⟨hsame, hready⟩ := h.works now hentries
    refine ⟨hsame, ?_⟩
    generalize (order (dispatched (handleHeartbeat s))).foldl
      (Retrieval.respondWork st data now) s = s' at hsame hready ⊢
    unfold leftOver
    rw [waitingSlots, waitingSlots, List.filter_filter]
    refine List.filter_congr fun i _ => ?_
    rw [(hsame i).2]
    by_cases huse : (s.pending i).inUse = true
    · have hnamed : wireName (s.pending i) ∈
          (order (dispatched (handleHeartbeat s))).map Prod.fst ↔ i ∈ listedSlots s := by
        rw [List.mem_map]
        constructor
        · rintro ⟨entry, he, hname⟩
          obtain ⟨j, hj, rfl⟩ := (hmem entry).mp he
          have hjuse := (mem_waitingSlots.mp (listedSlots_subset hj)).1
          rw [h.wireName_inj huse hjuse hname.symm]
          exact hj
        · intro hi
          exact ⟨_, (hmem _).mpr ⟨i, hi, rfl⟩, rfl⟩
      have hready' := hready i huse
      rw [hnamed] at hready'
      rw [huse, Bool.eq_iff_iff]
      simp only [Bool.true_and, Bool.not_eq_true', ← Bool.not_eq_true, hready', Bool.and_eq_true,
        not_or, List.contains_iff_mem, listedSlots, waitingSlots]
      tauto
    · rw [Bool.not_eq_true] at huse
      rw [huse, Bool.false_and, Bool.false_and, Bool.and_false]

/-- A tick is at least one round. -/
theorem Drainable.drain (now : Nat) (h : Drainable st data s) (rounds : Nat) :
    SameEntries s (heartbeatDrain st data order now rounds s) ∧
      ∃ m, (0 < rounds → 0 < m) ∧
        waitingSlots (heartbeatDrain st data order now rounds s)
          = (passOf st s)^[m] (waitingSlots s) := by
  induction rounds generalizing s with
  | zero => exact ⟨.refl s, 0, fun h0 => h0, rfl⟩
  | succ rounds ih =>
    obtain ⟨hsame, hwaiting⟩ := h.round horder now
    unfold heartbeatDrain
    cases hround : heartbeatRound st data order now s with
    | mk reply s' =>
      rw [hround] at hsame hwaiting
      dsimp only at hsame hwaiting ⊢
      cases reply with
      | none =>
        have hstay : s' = s := by
          unfold heartbeatRound at hround
          split at hround
          · exact (congrArg Prod.snd hround).symm
          · cases hround
        subst hstay
        exact ⟨hsame, 1, fun _ => Nat.one_pos, hwaiting⟩
      | some rlen =>
        dsimp only
        split
        · exact ⟨hsame, 1, fun _ => Nat.one_pos, hwaiting⟩
        · obtain ⟨hsame', m, -, hwaiting'⟩ := ih (h.congr hsame)
          refine ⟨hsame.trans hsame', m + 1, fun _ => Nat.succ_pos m, ?_⟩
          rw [hwaiting', hsame.passOf, hwaiting, Function.iterate_succ_apply]

theorem Drainable.ticks (now : Nat) (h : Drainable st data s) (n : Nat) :
    SameEntries s ((heartbeatTick st data order now)^[n] s) ∧
      ∃ m, n ≤ m ∧ waitingSlots ((heartbeatTick st data order now)^[n] s)
        = (passOf st s)^[m] (waitingSlots s) := by
  induction n with
  | zero => exact ⟨.refl s, 0, Nat.le_refl 0, rfl⟩
  | succ n ih =>
    obtain ⟨hsame, m, hm, hwaiting⟩ := ih
    rw [Function.iterate_succ_apply']
    obtain ⟨hsame', k, hk, hwaiting'⟩ := (h.congr hsame).drain horder now
      heartbeatDrainMax
    refine ⟨hsame.trans hsame', k + m, ?_, ?_⟩
    · have hpos := hk (by decide)
      omega
    · rw [hsame.passOf, hwaiting, ← Function.iterate_add_apply] at hwaiting'
      exact hwaiting'

/-- An entry that is ever answered fits behind those that never are. -/
theorem Drainable.fits (h : Drainable st data s) {n : Nat}
    (hdone : OwnAnswered st ((heartbeatTick st data order now)^[n] s)) :
    (∀ i ∈ waitingSlots s, ownEntry st s i = true → FitsBehind st s i) ∧ RepliesPass st s := by
  have hsorted := sorted_waitingSlots s
  obtain ⟨hsame, m, -, hwaiting⟩ := h.ticks horder now n
  have hclear : ∀ i ∈ (passOf st s)^[m] (waitingSlots s), ownEntry st s i = false := by
    intro i hi
    rw [← hsame.ownEntry]
    exact ownAnswered_iff.mp hdone i (hwaiting ▸ hi)
  exact ⟨fits_of_pass (slotSize s) hsorted hclear, cap_of_pass (slotSize s) hclear⟩

/-- All entries of the sender's own get their answers exactly if each of them fits into a reply
behind the waiting entries of other senders before it, and no reply that is still needed leaves
no room for the nonce; and then as many ticks as the table has slots are enough. -/
theorem heartbeats_drain_iff (h : Drainable st data s) :
    ((∃ n, OwnAnswered st ((heartbeatTick st data order now)^[n] s)) ↔
        (∀ i ∈ waitingSlots s, ownEntry st s i = true → FitsBehind st s i) ∧ RepliesPass st s) ∧
      ((∃ n, OwnAnswered st ((heartbeatTick st data order now)^[n] s)) →
        ∀ n, maxPending ≤ n → OwnAnswered st ((heartbeatTick st data order now)^[n] s)) := by
  have hiff : (∃ n, OwnAnswered st ((heartbeatTick st data order now)^[n] s)) →
      (∀ i ∈ waitingSlots s, ownEntry st s i = true → FitsBehind st s i) ∧ RepliesPass st s := by
    rintro ⟨n, hdone⟩
    exact h.fits horder hdone
  have hdrain : (∀ i ∈ waitingSlots s, ownEntry st s i = true → FitsBehind st s i) ∧
      RepliesPass st s → ∀ n, maxPending ≤ n →
        OwnAnswered st ((heartbeatTick st data order now)^[n] s) := by
    rintro ⟨hfits, hpass⟩ n hn
    obtain ⟨hsame, m, hm, hwaiting⟩ := h.ticks horder now n
    have hfew : (waitingSlots s).length ≤ maxPending :=
      (List.length_filter_le _ _).trans (by rw [List.length_finRange])
    rw [ownAnswered_iff, hwaiting]
    intro i hi
    rw [hsame.ownEntry]
    exact pass_clears (slotSize s) (sorted_waitingSlots s) hfits hpass (by omega) i hi
  exact ⟨⟨hiff, fun hcond => ⟨maxPending, hdrain hcond maxPending (Nat.le_refl _)⟩⟩,
    fun hdone => hdrain (hiff hdone)⟩

end

/-! The tables of the cache server. -/

/-- No key that is written has a null byte. -/
theorem serve_plain {s : CacheState} (h : ∀ i, 0 ∉ (s.pending i).key.1) (c : Cache.Connection) :
    ∀ i, 0 ∉ ((serve s c).pending i).key.1 := by
  unfold serve handleConnection
  split
  · rename_i f hparse
    have heff := serveFrame_effect s f c.now
    generalize (serveFrame s f c.now).1 = reply at heff
    generalize (serveFrame s f c.now).2.pending = table at heff ⊢
    intro j
    cases heff with
    | quiet hquiet => exact h j
    | init i hdata hinit hslot =>
      by_cases hj : j = i
      · rw [hj, Function.update_self]
        exact parseFrame_key hparse
      · rw [Function.update_of_ne hj]
        exact h j
    | respond i hdata hposts hfind =>
      by_cases hj : j = i
      · rw [hj, Function.update_self]
        exact h i
      · rw [Function.update_of_ne hj]
        exact h j
    | poll i hready hreturns hfind =>
      by_cases hj : j = i
      · rw [hj, Function.update_self]
        exact h i
      · rw [Function.update_of_ne hj]
        exact h j
  · exact h

theorem drainable_of_reachable {st : SenderState} {data : CString → List UInt8} {s : CacheState}
    (h : Reachable s)
    (hanswered : ∀ i, (s.pending i).inUse = true → ownEntry st s i = true →
      (respondRequest (wireName (s.pending i)) (data (wireName (s.pending i)))).isSome ∧
        ecPubkeyLen + 2 ≤ (data (wireName (s.pending i))).length ∧
        (data (wireName (s.pending i))).length ≤ maxRespData) : Drainable st data s where
  distinct := fun _ _ => h.distinct
  plain := by
    obtain ⟨cs, rfl⟩ := h
    exact Machine.run_keeps serve (fun s => ∀ i, 0 ∉ (s.pending i).key.1)
      (fun _ c hs => serve_plain hs c) cs (by simp [CacheState.initial, zeroPending])
  answered := hanswered

/-! Sample tables. -/

/-- A table in which a handshake waits for each of the keys. -/
def waitingFor (keys : List RawKey) : CacheState :=
  { CacheState.initial with
    pending := fun i =>
      match keys[i.1]? with
      | some key => { zeroPending with key := cacheKey key, inUse := true }
      | none => zeroPending }

/-- A wire key of 63 bytes for content of another sender. -/
def othersKey (a : Fin 26) : RawKey :=
  ⟨List.replicate 58 (UInt8.ofNat (97 + a)) ++ labelBytes "#0000", by simp; decide⟩

def sampleWire : RawKey := mykeyWire

/-- A sender that owns `mykey`. -/
def keyOwner : SenderState :=
  (uploadContent .sample .sample sampleKey [7] (.sample (sampleMaster 0) true)).2

def sampleRespond (_ : CString) : List UInt8 := List.replicate 130 1

set_option maxRecDepth 100000 in
theorem heartbeats_drain_iff_twoWaiting :
    ∃ n, OwnAnswered keyOwner
      ((heartbeatTick keyOwner sampleRespond id 0)^[n] (waitingFor [othersKey 0, sampleWire])) := by
  have hdrainable : Drainable keyOwner sampleRespond (waitingFor [othersKey 0, sampleWire]) :=
    ⟨by decide +kernel, by decide +kernel, by decide +kernel⟩
  exact (heartbeats_drain_iff (fun l => .refl l) hdrainable).1.mpr
    ⟨by decide +kernel, repliesPass_of_total (by decide +kernel)⟩

set_option maxRecDepth 100000 in
/-- Three handshakes for other senders fill every reply. -/
theorem others_block_the_drain :
    let s := waitingFor [othersKey 0, othersKey 1, othersKey 2, sampleWire]
    Drainable keyOwner sampleRespond s ∧
      ¬ ∃ n, OwnAnswered keyOwner ((heartbeatTick keyOwner sampleRespond id 0)^[n] s) := by
  have hdrainable : Drainable keyOwner sampleRespond
      (waitingFor [othersKey 0, othersKey 1, othersKey 2, sampleWire]) :=
    ⟨by decide +kernel, by decide +kernel, by decide +kernel⟩
  refine ⟨hdrainable, ?_⟩
  rintro ⟨n, hdone⟩
  have hfits := (hdrainable.fits (fun l => .refl l) hdone).1
  exact absurd (hfits 3 (by decide +kernel) (by decide +kernel)) (by decide +kernel)

end AnonSecNet.Retrieval
