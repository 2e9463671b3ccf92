import AnonSecNet.Evaluation.CoverClock
import AnonSecNet.Foundation.Backlog
import AnonSecNet.Foundation.Sweep

/-! `gen_cover_drop_dispatch` of `flowcorr_run.py`: real packets and cover in one queue, with a
part of the cover dropped before it gets there. -/
namespace AnonSecNet.Evaluation
open Sweep

inductive PacketKind where
  | cover | dropped | real
deriving DecidableEq

/-- The order of the three words. -/
def PacketKind.rank : PacketKind → Nat
  | .cover => 0
  | .dropped => 1
  | .real => 2

/-- The order of the tuples in the timeline. -/
def tupleLe (p q : ℚ × PacketKind) : Prop := p.1 < q.1 ∨ p.1 = q.1 ∧ p.2.rank ≤ q.2.rank

instance : DecidableRel tupleLe := fun p q =>
  inferInstanceAs (Decidable (p.1 < q.1 ∨ p.1 = q.1 ∧ p.2.rank ≤ q.2.rank))

/-- The variables of the loop. -/
structure CoverDrop where
  queue : List (ℚ × PacketKind)
  dispatchedReal : List ℚ
  coverTimes : List ℚ
deriving DecidableEq

def CoverDrop.initial : CoverDrop := ⟨[], [], []⟩

/-- The head of the queue, if there is one, leaves at `t`. -/
def CoverDrop.pop (s : CoverDrop) (t : ℚ) : CoverDrop :=
  match s.queue with
  | [] => s
  | (_, kind) :: queue =>
    if kind = .real then { s with queue, dispatchedReal := s.dispatchedReal ++ [t] }
    else { s with queue, coverTimes := s.coverTimes ++ [t] }

def CoverDrop.take (workConserving : Bool) (s : CoverDrop) : ℚ × PacketKind → CoverDrop
  | (arrival, kind) =>
    if kind = .dropped then if workConserving then s.pop arrival else s
    else { s with queue := s.queue ++ [(arrival, kind)] }

def CoverDrop.tick (s : CoverDrop) (t : ℚ) : CoverDrop :=
  match s.queue with
  | [] => s
  | head :: _ => if head.1 ≤ t then s.pop t else s

variable (expovariate : Expovariate) (mean : ℚ)

/-- `rng.random() < drop_prob`. -/
def drawDropped (dropProb : ℚ) (rng : Rng) : Bool × Rng := (rng.head < dropProb, rng.tail)

/-- The cover before it is thinned out; the flag says which packets are dropped. -/
def coverProcess (rng : Rng) (horizon dropProb : ℚ) : List (ℚ × Bool) × Rng :=
  tickLoop expovariate mean (drawDropped dropProb) horizon (tickRounds horizon) 0 rng

def timeline (realArrivalTimes : List ℚ) (cover : List (ℚ × Bool)) : List (ℚ × PacketKind) :=
  let survivingCover := (cover.filter fun c => !c.2).map Prod.fst
  let droppedCover := (cover.filter fun c => c.2).map Prod.fst
  (realArrivalTimes.map (·, PacketKind.real) ++ survivingCover.map (·, PacketKind.cover)
    ++ droppedCover.map (·, PacketKind.dropped)).insertionSort tupleLe

/-- The loop over the ticks; it also ends when nothing is left to come and nothing waits. -/
def coverDropLoop (workConserving : Bool) (horizon : ℚ) :
    Nat → ℚ → Rng → List (ℚ × PacketKind) → CoverDrop → CoverDrop
  | 0, _, _, _, s => s
  | rounds + 1, t, rng, items, s =>
    if t < horizon ∧ (items ≠ [] ∨ s.queue ≠ []) then
      let (iv, rng) := coverTickMs expovariate mean rng
      let t := t + iv
      if horizon ≤ t then s
      else
        let s := (items.takeWhile (dueBy Prod.fst t)).foldl (CoverDrop.take workConserving) s
        coverDropLoop workConserving horizon rounds t rng (items.dropWhile (dueBy Prod.fst t))
          (s.tick t)
    else s

def coverDropRun (rng : Rng) (realArrivalTimes : List ℚ) (durationS dropProb : ℚ)
    (workConserving : Bool) : CoverDrop :=
  let horizon := durationS * 1000
  let (cover, rng) := coverProcess expovariate mean rng horizon dropProb
  coverDropLoop expovariate mean workConserving horizon (tickRounds horizon) 0 rng
    (timeline realArrivalTimes cover) .initial

/-- The dispatched real times and the cover times. -/
def genCoverDropDispatch (rng : Rng) (realArrivalTimes : List ℚ) (durationS dropProb : ℚ)
    (workConserving : Bool) : List ℚ × List ℚ :=
  let s := coverDropRun expovariate mean rng realArrivalTimes durationS dropProb workConserving
  (s.dispatchedReal.insertionSort (· ≤ ·), s.coverTimes.insertionSort (· ≤ ·))

/-! What the queue gets and when it is served. -/

/-- A packet for the queue, a turn of the queue (`none`), or nothing. -/
def offer (workConserving : Bool) : (ℚ × PacketKind) ⊕ ℚ → Option (Option PacketKind)
  | .inl (_, kind) =>
    if kind = .dropped then if workConserving then some none else none else some (some kind)
  | .inr _ => some none

/-- What is in the timeline and the dispatch ticks below the horizon, in the order of the loop. -/
def coverDropEvents (rng : Rng) (realArrivalTimes : List ℚ) (durationS dropProb : ℚ) :
    List ((ℚ × PacketKind) ⊕ ℚ) :=
  let (cover, rng) := coverProcess expovariate mean rng (durationS * 1000) dropProb
  merged (dueBy Prod.fst) (timeline realArrivalTimes cover)
    (clockTicks expovariate mean (durationS * 1000) rng)

/-- What comes after the last of these ticks. -/
def coverDropLate (rng : Rng) (realArrivalTimes : List ℚ) (durationS dropProb : ℚ) :
    List (ℚ × PacketKind) :=
  let (cover, rng) := coverProcess expovariate mean rng (durationS * 1000) dropProb
  leftover (dueBy Prod.fst) (timeline realArrivalTimes cover)
    (clockTicks expovariate mean (durationS * 1000) rng)

/-- The packets that come to the queue and the turns it gets until the loop ends. -/
def queueOffers (rng : Rng) (realArrivalTimes : List ℚ) (durationS dropProb : ℚ)
    (workConserving : Bool) : List (Option PacketKind) :=
  (coverDropEvents expovariate mean rng realArrivalTimes durationS dropProb).filterMap
      (offer workConserving) ++
    (((coverDropLate expovariate mean rng realArrivalTimes durationS dropProb).map
      Prod.snd).filter (· ≠ .dropped)).map some

/-! The loop as a run. -/

section
omit expovariate mean
variable {workConserving : Bool} {s : CoverDrop}

instance : Std.Total tupleLe where
  total p q := by
    unfold tupleLe
    obtain h | h | h := lt_trichotomy p.1 q.1
    · exact .inl (.inl h)
    · exact (le_total p.2.rank q.2.rank).imp (fun hr => .inr ⟨h, hr⟩) fun hr => .inr ⟨h.symm, hr⟩
    · exact .inr (.inl h)

instance : IsTrans (ℚ × PacketKind) tupleLe where
  trans p q r := by
    rintro (hpq | ⟨hpq, hrank⟩) (hqr | ⟨hqr, hrank'⟩)
    · exact .inl (hpq.trans hqr)
    · exact .inl (hqr ▸ hpq)
    · exact .inl (hpq ▸ hqr)
    · exact .inr ⟨hpq.trans hqr, hrank.trans hrank'⟩

theorem timeline_sorted (realArrivalTimes : List ℚ) (cover : List (ℚ × Bool)) :
    (timeline realArrivalTimes cover).Pairwise fun p q => p.1 ≤ q.1 :=
  (List.pairwise_insertionSort tupleLe _).imp fun h => h.elim le_of_lt fun h => h.1.le

@[simp] theorem CoverDrop.pop_queue (s : CoverDrop) (t : ℚ) : (s.pop t).queue = s.queue.tail := by
  unfold CoverDrop.pop
  split
  · rename_i h
    rw [h]
    rfl
  · rename_i h
    rw [h]
    split <;> rfl

/-- A packet of the timeline joins the queue, gives the queue a turn, or does nothing. -/
theorem take_cases (workConserving : Bool) (s : CoverDrop) (p : ℚ × PacketKind) :
    (p.2 ≠ .dropped ∧ offer workConserving (.inl p) = some (some p.2) ∧
        s.take workConserving p = { s with queue := s.queue ++ [p] }) ∨
      (p.2 = .dropped ∧ offer workConserving (.inl p) = some none ∧
        s.take workConserving p = s.pop p.1) ∨
      (p.2 = .dropped ∧ offer workConserving (.inl p) = none ∧ s.take workConserving p = s) := by
  obtain ⟨arrival, kind⟩ := p
  by_cases hkind : kind = .dropped
  · cases workConserving with
    | true =>
      exact .inr (.inl
        ⟨hkind, (if_pos hkind).trans (if_pos rfl), (if_pos hkind).trans (if_pos rfl)⟩)
    | false =>
      have hoff : ¬ (false = true) := Bool.false_ne_true
      exact .inr (.inr ⟨hkind, (if_pos hkind).trans (if_neg hoff),
        (if_pos hkind).trans (if_neg hoff)⟩)
  · exact .inl ⟨hkind, if_neg hkind, if_neg hkind⟩

/-- At a tick the queue has nothing that is still to come. -/
theorem tick_eq_pop {t : ℚ} (h : ∀ p ∈ s.queue, p.1 ≤ t) : s.tick t = s.pop t := by
  unfold CoverDrop.tick
  split
  · rename_i hqueue
    unfold CoverDrop.pop
    rw [hqueue]
  · rename_i head queue hqueue
    exact if_pos (h head (by rw [hqueue]; exact List.mem_cons_self))

/-- The queue has only packets that are not after the events to come. -/
def Waiting (s : CoverDrop) (es : List ((ℚ × PacketKind) ⊕ ℚ)) : Prop :=
  ∀ p ∈ s.queue, ∀ e ∈ es, p.1 ≤ timeOf Prod.fst e

theorem Waiting.pop {e : (ℚ × PacketKind) ⊕ ℚ} {es : List ((ℚ × PacketKind) ⊕ ℚ)} {t : ℚ}
    (h : Waiting s (e :: es)) : Waiting (s.pop t) es := by
  intro p hp e' he'
  rw [CoverDrop.pop_queue] at hp
  exact h p (List.mem_of_mem_tail hp) e' (List.mem_cons_of_mem e he')

theorem Waiting.take {p : ℚ × PacketKind} {es : List ((ℚ × PacketKind) ⊕ ℚ)}
    (h : Waiting s (.inl p :: es)) (hfirst : ∀ e ∈ es, p.1 ≤ timeOf Prod.fst e) :
    Waiting (s.take workConserving p) es := by
  have hrest : Waiting s es := fun q hq e he => h q hq e (List.mem_cons_of_mem _ he)
  obtain ⟨-, -, htake⟩ | ⟨-, -, htake⟩ | ⟨-, -, htake⟩ := take_cases workConserving s p
  · rw [htake]
    intro q hq e he
    obtain hq | hq := List.mem_append.mp hq
    · exact hrest q hq e he
    · rw [List.mem_singleton.mp hq]
      exact hfirst e he
  · rw [htake]
    exact h.pop
  · rw [htake]
    exact hrest

/-- The loop never sees a head that is still to come. -/
theorem run_tick_eq {es : List ((ℚ × PacketKind) ⊕ ℚ)}
    (hes : es.Pairwise fun x y => timeOf Prod.fst x ≤ timeOf Prod.fst y) (hs : Waiting s es) :
    Machine.run (step (CoverDrop.take workConserving) CoverDrop.tick) es s
      = Machine.run (step (CoverDrop.take workConserving) CoverDrop.pop) es s := by
  induction es generalizing s with
  | nil => rfl
  | cons e es ih =>
    obtain ⟨hfirst, hrest⟩ := List.pairwise_cons.mp hes
    cases e with
    | inl p => exact ih hrest (hs.take hfirst)
    | inr t =>
      have htick : s.tick t = s.pop t := tick_eq_pop fun p hp => hs p hp _ List.mem_cons_self
      change Machine.run _ es (s.tick t) = Machine.run _ es (s.pop t)
      rw [htick]
      exact ih hrest hs.pop

/-- The queue, as what has come to it and the turns it has had. -/
theorem run_queue (workConserving : Bool) (es : List ((ℚ × PacketKind) ⊕ ℚ)) (s : CoverDrop) :
    (Machine.run (step (CoverDrop.take workConserving) CoverDrop.pop) es s).queue.map Prod.snd
      = Machine.run Backlog.step (es.filterMap (offer workConserving))
        (s.queue.map Prod.snd) := by
  induction es generalizing s with
  | nil => rfl
  | cons e es ih =>
    cases e with
    | inl p =>
      refine (ih (s.take workConserving p)).trans ?_
      rw [List.filterMap_cons]
      obtain ⟨-, hoffer, htake⟩ | ⟨-, hoffer, htake⟩ | ⟨-, hoffer, htake⟩ :=
        take_cases workConserving s p
      · rw [hoffer, htake, List.map_append]
        rfl
      · rw [hoffer, htake, CoverDrop.pop_queue, List.map_tail]
        rfl
      · rw [hoffer, htake]
    | inr t =>
      refine (ih (s.pop t)).trans ?_
      rw [CoverDrop.pop_queue, List.map_tail]
      rfl

end

/-- With nothing left to come and nothing waiting, ticks do nothing. -/
theorem sweep_idle (workConserving : Bool) (ticks : List ℚ) {s : CoverDrop} (h : s.queue = []) :
    sweep (CoverDrop.take workConserving) CoverDrop.tick (dueBy Prod.fst) [] ticks s = s := by
  have htick : ∀ t, s.tick t = s := by
    intro t
    unfold CoverDrop.tick
    rw [h]
  induction ticks with
  | nil => rfl
  | cons t ticks ih =>
    change sweep _ _ _ [] ticks (s.tick t) = s
    rw [htick]
    exact ih

theorem coverDropLoop_eq (workConserving : Bool) (horizon : ℚ) (rounds : Nat) (t : ℚ) (rng : Rng)
    (items : List (ℚ × PacketKind)) (s : CoverDrop) :
    coverDropLoop expovariate mean workConserving horizon rounds t rng items s
      = sweep (CoverDrop.take workConserving) CoverDrop.tick (dueBy Prod.fst) items
        ((tickLoop expovariate mean noDraw horizon rounds t rng).1.map Prod.fst) s := by
  induction rounds generalizing t rng items s with
  | zero => rfl
  | succ rounds ih =>
    by_cases hmore : items ≠ [] ∨ s.queue ≠ []
    · unfold coverDropLoop tickLoop
      by_cases hlow : t < horizon
      · rw [if_pos ⟨hlow, hmore⟩, if_pos hlow]
        dsimp only
        split
        · rfl
        · exact ih _ _ _ _
      · rw [if_neg fun h => hlow h.1, if_neg hlow]
        rfl
    · obtain ⟨hitems, hqueue⟩ := not_or.mp hmore
      have hidle := sweep_idle workConserving
        ((tickLoop expovariate mean noDraw horizon (rounds + 1) t rng).1.map Prod.fst)
        (not_not.mp hqueue)
      rw [not_not.mp hitems, hidle]
      unfold coverDropLoop
      exact if_neg fun h => h.2.elim (fun hnil => hnil rfl) hqueue

/-! The real packets. -/

section
omit expovariate mean

def realsOf (ps : List (ℚ × PacketKind)) : List ℚ := (ps.filter (·.2 = .real)).map Prod.fst

theorem realsOf_append (ps qs : List (ℚ × PacketKind)) :
    realsOf (ps ++ qs) = realsOf ps ++ realsOf qs := by
  unfold realsOf
  rw [List.filter_append, List.map_append]

theorem realsOf_eq_nil {ps : List (ℚ × PacketKind)} :
    realsOf ps = [] ↔ ∀ p ∈ ps, p.2 ≠ .real := by
  unfold realsOf
  rw [List.map_eq_nil_iff, List.filter_eq_nil_iff]
  simp only [decide_eq_true_eq, ne_eq]

/-- From `s` to `s'`, with the real arrivals `arrived` in between: the first that wait in the
queue are sent, at times among `times`, none before it came. -/
def Flow (arrived times : List ℚ) (s s' : CoverDrop) : Prop :=
  ∃ released sent, s'.dispatchedReal = s.dispatchedReal ++ sent ∧ sent.Sublist times ∧
    List.Forall₂ (· ≤ ·) released sent ∧
    realsOf s.queue ++ arrived = released ++ realsOf s'.queue

theorem Flow.refl (times : List ℚ) (s : CoverDrop) : Flow [] times s s :=
  ⟨[], [], (List.append_nil _).symm, List.nil_sublist _, .nil, List.append_nil _⟩

theorem Flow.trans {a b ts us : List ℚ} {s s' s'' : CoverDrop} (h : Flow a ts s s')
    (h' : Flow b us s' s'') : Flow (a ++ b) (ts ++ us) s s'' := by
  obtain ⟨released, sent, hsent, hsub, hmatched, hqueue⟩ := h
  obtain ⟨released', sent', hsent', hsub', hmatched', hqueue'⟩ := h'
  refine ⟨released ++ released', sent ++ sent', ?_, hsub.append hsub',
    List.rel_append hmatched hmatched', ?_⟩
  · rw [hsent', hsent, List.append_assoc]
  · rw [← List.append_assoc, hqueue, List.append_assoc, hqueue', List.append_assoc]

theorem CoverDrop.pop_flow {s : CoverDrop} {t : ℚ} (h : ∀ p ∈ s.queue, p.1 ≤ t) :
    Flow [] [t] s (s.pop t) := by
  unfold CoverDrop.pop
  split
  · exact Flow.refl [t] s
  · rename_i arrival kind queue hqueue
    split
    · rename_i hreal
      subst hreal
      have harrival : arrival ≤ t := h (arrival, .real) (by rw [hqueue]; exact List.mem_cons_self)
      refine ⟨[arrival], [t], rfl, List.Sublist.refl _, .cons harrival .nil, ?_⟩
      rw [hqueue, List.append_nil]
      rfl
    · rename_i hother
      refine ⟨[], [], (List.append_nil _).symm, List.nil_sublist _, .nil, ?_⟩
      rw [hqueue, List.append_nil, List.nil_append]
      unfold realsOf
      rw [List.filter_cons_of_neg (by simpa using hother)]

theorem CoverDrop.take_flow (workConserving : Bool) {s : CoverDrop} {p : ℚ × PacketKind}
    (h : ∀ q ∈ s.queue, q.1 ≤ p.1) :
    Flow (realsOf [p]) [p.1] s (s.take workConserving p) := by
  have hnone : p.2 = .dropped → realsOf [p] = [] := by
    intro hdropped
    refine realsOf_eq_nil.mpr fun q hq => ?_
    rw [List.mem_singleton.mp hq, hdropped]
    decide
  obtain ⟨-, -, htake⟩ | ⟨hdropped, -, htake⟩ | ⟨hdropped, -, htake⟩ :=
    take_cases workConserving s p
  · rw [htake]
    refine ⟨[], [], (List.append_nil _).symm, List.nil_sublist _, .nil, ?_⟩
    rw [realsOf_append, List.nil_append]
  · rw [htake, hnone hdropped]
    exact pop_flow h
  · rw [htake, hnone hdropped]
    exact Flow.refl [p.1] s

theorem run_flow (workConserving : Bool) {es : List ((ℚ × PacketKind) ⊕ ℚ)}
    (hes : es.Pairwise fun x y => timeOf Prod.fst x ≤ timeOf Prod.fst y) {s : CoverDrop}
    (hs : Waiting s es) :
    Flow (realsOf (es.filterMap Sum.getLeft?)) (es.map (timeOf Prod.fst)) s
      (Machine.run (step (CoverDrop.take workConserving) CoverDrop.pop) es s) := by
  induction es generalizing s with
  | nil => exact Flow.refl [] s
  | cons e es ih =>
    obtain ⟨hfirst, hrest⟩ := List.pairwise_cons.mp hes
    have hnow : ∀ q ∈ s.queue, q.1 ≤ timeOf Prod.fst e := fun q hq =>
      hs q hq e List.mem_cons_self
    cases e with
    | inl p =>
      have htail := (CoverDrop.take_flow workConserving hnow).trans (ih hrest (hs.take hfirst))
      rw [← realsOf_append] at htail
      exact htail
    | inr t => exact (CoverDrop.pop_flow hnow).trans (ih hrest hs.pop)

/-- The real packets of the timeline, in order. -/
theorem realsOf_timeline (realArrivalTimes : List ℚ) (cover : List (ℚ × Bool)) :
    realsOf (timeline realArrivalTimes cover) = realArrivalTimes.insertionSort (· ≤ ·) := by
  have hsorted : (realsOf (timeline realArrivalTimes cover)).Pairwise (· ≤ ·) := by
    unfold realsOf
    rw [List.pairwise_map]
    exact (timeline_sorted realArrivalTimes cover).sublist List.filter_sublist
  have hkind : ∀ (kind : PacketKind) (ts : List ℚ), kind ≠ .real →
      realsOf (ts.map (·, kind)) = [] := by
    intro kind ts hkind
    refine realsOf_eq_nil.mpr fun p hp => ?_
    obtain ⟨t, -, rfl⟩ := List.mem_map.mp hp
    exact hkind
  have hreal : realsOf (realArrivalTimes.map (·, .real)) = realArrivalTimes := by
    unfold realsOf
    rw [List.filter_eq_self.mpr (by simp), List.map_map]
    exact List.map_id _
  have hperm : (realsOf (timeline realArrivalTimes cover)).Perm realArrivalTimes := by
    have := ((List.perm_insertionSort tupleLe
      (realArrivalTimes.map (·, PacketKind.real)
        ++ ((cover.filter fun c => !c.2).map Prod.fst).map (·, PacketKind.cover)
        ++ ((cover.filter fun c => c.2).map Prod.fst).map (·, PacketKind.dropped))).filter
      (·.2 = .real)).map Prod.fst
    change (realsOf (timeline realArrivalTimes cover)).Perm (realsOf (_ ++ _ ++ _)) at this
    rw [realsOf_append, realsOf_append, hreal, hkind _ _ (by decide), hkind _ _ (by decide),
      List.append_nil, List.append_nil] at this
    exact this
  exact (hperm.trans (List.perm_insertionSort (· ≤ ·) _).symm).eq_of_pairwise' hsorted
    (List.pairwise_insertionSort _ _)

theorem run_push (ks : List PacketKind) (q : List PacketKind) :
    Machine.run Backlog.step (ks.map some) q = q ++ ks := by
  induction ks generalizing q with
  | nil => exact (List.append_nil q).symm
  | cons k ks ih =>
    refine (ih (q ++ [k])).trans ?_
    rw [List.append_assoc]
    rfl

end

section
variable (rng : Rng) (realArrivalTimes : List ℚ) (durationS dropProb : ℚ) (workConserving : Bool)

theorem coverDropEvents_sorted :
    (coverDropEvents expovariate mean rng realArrivalTimes durationS dropProb).Pairwise
      fun x y => timeOf Prod.fst x ≤ timeOf Prod.fst y :=
  merged_sorted Prod.fst (timeline_sorted realArrivalTimes _)
    (clockTicks_sorted expovariate mean _ _)

theorem coverDropRun_eq :
    coverDropRun expovariate mean rng realArrivalTimes durationS dropProb workConserving
      = Machine.run (step (CoverDrop.take workConserving) CoverDrop.pop)
        (coverDropEvents expovariate mean rng realArrivalTimes durationS dropProb) .initial := by
  rw [← run_tick_eq
    (coverDropEvents_sorted expovariate mean rng realArrivalTimes durationS dropProb)
    fun _ h => absurd h List.not_mem_nil]
  exact (coverDropLoop_eq expovariate mean _ _ _ _ _ _ _).trans (sweep_eq_run _ _ _ _ _ _)

/-- What is sent is the front of the real arrivals, in order and not before they came; the others
are in the queue or too late for it. -/
theorem coverDropRun_flow :
    ∃ released, List.Forall₂ (· ≤ ·) released
        (genCoverDropDispatch expovariate mean rng realArrivalTimes durationS dropProb
          workConserving).1 ∧
      realArrivalTimes.insertionSort (· ≤ ·) = released ++
        (realsOf (coverDropRun expovariate mean rng realArrivalTimes durationS dropProb
            workConserving).queue ++
          realsOf (coverDropLate expovariate mean rng realArrivalTimes durationS dropProb)) := by
  have hsorted :=
    coverDropEvents_sorted expovariate mean rng realArrivalTimes durationS dropProb
  obtain ⟨released, sent, hsent, hsub, hmatched, hqueue⟩ :=
    run_flow workConserving hsorted (s := .initial) fun _ h => absurd h List.not_mem_nil
  rw [← coverDropRun_eq] at hsent hqueue
  have hsentSorted : sent.Pairwise (· ≤ ·) := (List.pairwise_map.mpr hsorted).sublist hsub
  have hdispatched : (genCoverDropDispatch expovariate mean rng realArrivalTimes durationS
      dropProb workConserving).1 = sent := by
    change List.insertionSort _ (coverDropRun _ _ _ _ _ _ _).dispatchedReal = sent
    rw [hsent]
    exact hsentSorted.insertionSort_eq
  have hitems := congrArg realsOf (items_eq (dueBy Prod.fst)
    (timeline realArrivalTimes
      (coverProcess expovariate mean rng (durationS * 1000) dropProb).1)
    (clockTicks expovariate mean (durationS * 1000)
      (coverProcess expovariate mean rng (durationS * 1000) dropProb).2))
  rw [realsOf_timeline, realsOf_append] at hitems
  refine ⟨released, hdispatched ▸ hmatched, ?_⟩
  rw [← hitems, ← List.append_assoc]
  exact congrArg (· ++ _) hqueue

/-- The real packets that are not sent, as those that wait at the end of the offers. -/
theorem unsent_iff :
    (realsOf (coverDropRun expovariate mean rng realArrivalTimes durationS dropProb
          workConserving).queue ++
        realsOf (coverDropLate expovariate mean rng realArrivalTimes durationS dropProb) = []) ↔
      ∀ kind ∈ Machine.run Backlog.step (queueOffers expovariate mean rng realArrivalTimes
        durationS dropProb workConserving) [], ¬ kind = .real := by
  have hqueue := run_queue workConserving
    (coverDropEvents expovariate mean rng realArrivalTimes durationS dropProb) .initial
  rw [← coverDropRun_eq] at hqueue
  change _ = Machine.run Backlog.step _ [] at hqueue
  unfold queueOffers
  rw [Machine.run_append, run_push, List.forall_mem_append, List.append_eq_nil_iff,
    realsOf_eq_nil, realsOf_eq_nil, ← hqueue, List.forall_mem_map]
  refine and_congr_right fun _ => ⟨fun h kind hkind => ?_, fun h p hp hreal => ?_⟩
  · obtain ⟨p, hp, rfl⟩ := List.mem_map.mp (List.mem_of_mem_filter hkind)
    exact h p hp
  · refine h p.2 (List.mem_filter.mpr ⟨List.mem_map_of_mem hp, ?_⟩) hreal
    rw [hreal]
    decide

end

end AnonSecNet.Evaluation
