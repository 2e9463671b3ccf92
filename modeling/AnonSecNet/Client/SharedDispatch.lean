import AnonSecNet.Foundation.Unwinding
import Mathlib.Data.List.Perm.Basic

/-! `outbound_cover_thread` of `client.c` and of `sender.c` under `ASN_LOOPIX_MIXING`: requests put
their packet into a mailbox of one place, which the cover clock empties. -/
namespace AnonSecNet.Client

/-- Where the cover thread stands in a wake-up: in front of the mailbox, or with a packet that it
has for the entry node, taken from the mailbox or built as cover. -/
inductive DispatchPc (π T : Type*) where
  | asleep
  | holding (tick : T) (haveReal : Bool) (out : π)
deriving DecidableEq

/-- `pending` is `g_pending_real_pkt` while `g_pending_real_flag` is set. The lists log what
requests put into the mailbox, what was overwritten there, the real packets that found no entry
node, and what was sent at which tick. -/
structure SharedDispatch (π T : Type*) where
  pending : Option π
  pc : DispatchPc π T
  queued : List π
  overwritten : List π
  unreached : List π
  sent : List (T × Bool × π)
deriving DecidableEq

def SharedDispatch.initial (π T : Type*) : SharedDispatch π T := ⟨none, .asleep, [], [], [], []⟩

/-- `queue` is the end of `send_app_request`. A wake-up is a `drain`, where `cover` is the packet
that `build_cover_slot` has if it is called, and a `connect`. -/
inductive DispatchOp (π T : Type*) where
  | queue (pkt : π)
  | drain (tick : T) (ready : Bool) (cover : Option π)
  | connect (accepted : Bool)
deriving DecidableEq

section
variable {π T : Type*}

def SharedDispatch.queue (s : SharedDispatch π T) (pkt : π) : SharedDispatch π T :=
  { s with
    pending := some pkt, queued := s.queued ++ [pkt]
    overwritten := s.overwritten ++ s.pending.toList }

def SharedDispatch.drain (s : SharedDispatch π T) (tick : T) (cover : Option π) :
    SharedDispatch π T :=
  match s.pending with
  | some pkt => { s with pending := none, pc := .holding tick true pkt }
  | none =>
    match cover with
    | some pkt => { s with pc := .holding tick false pkt }
    | none => s

/-- An operation that is not the thread's next one does nothing. -/
def dispatchStep (s : SharedDispatch π T) : DispatchOp π T → SharedDispatch π T
  | .queue pkt => s.queue pkt
  | .drain tick ready cover =>
    match s.pc with
    | .asleep => if ready then s.drain tick cover else s
    | .holding .. => s
  | .connect accepted =>
    match s.pc with
    | .asleep => s
    | .holding tick haveReal out =>
      if accepted then { s with pc := .asleep, sent := s.sent ++ [(tick, haveReal, out)] }
      else if haveReal then { s with pc := .asleep, unreached := s.unreached ++ [out] }
      else { s with pc := .asleep }

def DispatchOp.isQueue : DispatchOp π T → Bool
  | .queue _ => true
  | _ => false

/-- What the clock and the network make of an operation, whatever the packets. -/
inductive ClockOp (T : Type*) where
  | drain (tick : T) (ready : Bool)
  | connect (accepted : Bool)
deriving DecidableEq

def DispatchOp.clock : DispatchOp π T → Option (ClockOp T)
  | .queue _ => none
  | .drain tick ready _ => some (.drain tick ready)
  | .connect accepted => some (.connect accepted)

def DispatchOp.tick? : DispatchOp π T → Option T
  | .drain tick _ _ => some tick
  | _ => none

/-- There is a cover packet for every wake-up that may need one. -/
def DispatchOp.CoverBuilt : DispatchOp π T → Prop
  | .drain _ ready cover => ready = true → cover.isSome = true
  | _ => True

/-- The real packet in the thread's hands. -/
def DispatchPc.real : DispatchPc π T → List π
  | .holding _ true out => [out]
  | _ => []

def SharedDispatch.sentReal (s : SharedDispatch π T) : List π :=
  (s.sent.filter fun e => e.2.1).map fun e => e.2.2

/-- When something goes out: all that there is to see, as packets are of one size. -/
def SharedDispatch.sendTimes (s : SharedDispatch π T) : List T := s.sent.map Prod.fst

/-! What an observer sees. -/

/-- The tick of the wake-up the thread is in, and the times of the packets before. -/
def SharedDispatch.view (s : SharedDispatch π T) : Option T × List T :=
  (match s.pc with
    | .asleep => none
    | .holding tick _ _ => some tick, s.sendTimes)

/-- The clock alone. -/
def clockStep (v : Option T × List T) : ClockOp T → Option T × List T
  | .drain tick ready =>
    match v.1 with
    | none => if ready then (some tick, v.2) else v
    | some _ => v
  | .connect accepted =>
    match v.1 with
    | none => v
    | some tick => (none, if accepted then v.2 ++ [tick] else v.2)

theorem view_queue (s : SharedDispatch π T) (op : DispatchOp π T) (h : op.clock = none) :
    (dispatchStep s op).view = s.view := by
  cases op with
  | queue pkt => rfl
  | drain tick ready cover => cases h
  | connect accepted => cases h

theorem view_clock (s : SharedDispatch π T) (op : DispatchOp π T) (c : ClockOp T)
    (h : op.clock = some c) (hcover : op.CoverBuilt) :
    (dispatchStep s op).view = clockStep s.view c := by
  cases op with
  | queue pkt => cases h
  | drain tick ready cover =>
    cases h
    cases hpc : s.pc with
    | holding tick' haveReal out => simp [dispatchStep, clockStep, SharedDispatch.view, hpc]
    | asleep =>
      cases ready with
      | false => simp [dispatchStep, clockStep, SharedDispatch.view, hpc]
      | true =>
        obtain ⟨pkt, rfl⟩ := Option.isSome_iff_exists.mp (hcover rfl)
        cases hpending : s.pending <;>
          simp [dispatchStep, clockStep, SharedDispatch.view, SharedDispatch.drain, hpc, hpending,
            SharedDispatch.sendTimes]
  | connect accepted =>
    cases h
    cases hpc : s.pc with
    | asleep => simp [dispatchStep, clockStep, SharedDispatch.view, hpc]
    | holding tick haveReal out =>
      cases accepted <;> cases haveReal <;>
        simp [dispatchStep, clockStep, SharedDispatch.view, SharedDispatch.sendTimes, hpc]

/-- A tick sends at most once. -/
theorem sendTimes_sublist (ops : List (DispatchOp π T)) (s : SharedDispatch π T) :
    (Machine.run dispatchStep ops s).sendTimes.Sublist
      (s.sendTimes ++ s.view.1.toList ++ ops.filterMap DispatchOp.tick?) := by
  induction ops generalizing s with
  | nil =>
    rw [List.filterMap_nil, List.append_nil]
    exact List.sublist_append_left _ _
  | cons op ops ih =>
    refine (ih (dispatchStep s op)).trans ?_
    cases op with
    | queue pkt => exact List.Sublist.refl _
    | drain tick ready cover =>
      rw [List.filterMap_cons_some (rfl : DispatchOp.tick? (.drain tick ready cover) = some tick)]
      cases hpc : s.pc with
      | holding tick' haveReal out =>
        simp [dispatchStep, hpc]
      | asleep =>
        cases ready <;> cases hpending : s.pending <;> cases cover <;>
          simp [dispatchStep, SharedDispatch.drain, SharedDispatch.view, hpc, hpending,
            SharedDispatch.sendTimes]
    | connect accepted =>
      rw [List.filterMap_cons_none rfl]
      refine List.Sublist.append_right ?_ _
      cases hpc : s.pc with
      | asleep => simp [dispatchStep, hpc]
      | holding tick haveReal out =>
        cases accepted <;> cases haveReal <;>
          simp [dispatchStep, SharedDispatch.view, SharedDispatch.sendTimes, hpc]

/-- As long as cover can be built, when packets go out does not depend on when requests are
made, how many there are and what is in them. -/
theorem shared_dispatch_hides_requests {ops ops' : List (DispatchOp π T)}
    (hops : ∀ op ∈ ops, op.CoverBuilt) (hops' : ∀ op ∈ ops', op.CoverBuilt)
    (heq : ops.filterMap DispatchOp.clock = ops'.filterMap DispatchOp.clock) :
    (Machine.run dispatchStep ops (.initial π T)).sendTimes
        = (Machine.run dispatchStep ops' (.initial π T)).sendTimes ∧
      (Machine.run dispatchStep ops (.initial π T)).sendTimes.Sublist
        (ops.filterMap DispatchOp.tick?) := by
  refine ⟨congrArg Prod.snd (Unwinding.view_eq view_queue view_clock hops hops' heq rfl), ?_⟩
  exact sendTimes_sublist ops (.initial π T)

/-- The clock goes off three times, for a client that makes two requests and for an idle one. -/
theorem shared_dispatch_hides_requests_two :
    (Machine.run dispatchStep [.queue 7, .drain 10 true (some 0), .connect true, .drain 20 true
        (some 0), .queue 8, .connect true, .drain 30 true (some 0), .connect true]
        (.initial Nat Nat)).sendTimes
        = (Machine.run dispatchStep [.drain 10 true (some 1), .connect true, .drain 20 true
            (some 2), .connect true, .drain 30 true (some 3), .connect true]
            (.initial Nat Nat)).sendTimes ∧
      (Machine.run dispatchStep [.drain 10 true (some 1), .connect true, .drain 20 true (some 2),
        .connect true, .drain 30 true (some 3), .connect true] (.initial Nat Nat)).sendTimes
          = [10, 20, 30] :=
  ⟨(shared_dispatch_hides_requests (by simp [DispatchOp.CoverBuilt])
    (by simp [DispatchOp.CoverBuilt]) (by decide)).1, by decide⟩

/-! What becomes of the requests. -/

/-- Every packet that came into the mailbox is in one place, and those that are not lost are in
order. -/
structure SharedDispatch.Accounted (s : SharedDispatch π T) : Prop where
  perm : s.queued.Perm (s.sentReal ++ s.unreached ++ s.overwritten ++ s.pc.real
    ++ s.pending.toList)
  order : (s.sentReal ++ s.pc.real ++ s.pending.toList).Sublist s.queued

theorem SharedDispatch.Accounted.initial : (SharedDispatch.initial π T).Accounted :=
  ⟨List.Perm.nil, List.Sublist.refl _⟩

theorem SharedDispatch.Accounted.queue {s : SharedDispatch π T} (h : s.Accounted) (pkt : π) :
    (s.queue pkt).Accounted where
  perm := by
    have hperm := h.perm.append_right [pkt]
    refine hperm.trans ?_
    change List.Perm _ (s.sentReal ++ s.unreached ++ (s.overwritten ++ s.pending.toList)
      ++ s.pc.real ++ [pkt])
    refine List.Perm.append_right _ ?_
    simp only [List.append_assoc]
    exact ((List.perm_append_comm.append_left _).append_left _).append_left _
  order := by
    change (s.sentReal ++ s.pc.real ++ [pkt]).Sublist (s.queued ++ [pkt])
    refine List.Sublist.append_right ?_ _
    exact (List.sublist_append_left _ _).trans h.order

/-- The same packets are in the same places. -/
theorem SharedDispatch.Accounted.of_eq {s s' : SharedDispatch π T} (h : s.Accounted)
    (hqueued : s'.queued = s.queued) (hover : s'.overwritten = s.overwritten)
    (hunreached : s'.unreached = s.unreached)
    (horder : s'.sentReal ++ s'.pc.real ++ s'.pending.toList
      = s.sentReal ++ s.pc.real ++ s.pending.toList) : s'.Accounted where
  perm := by
    classical
    refine List.perm_iff_count.mpr fun p => ?_
    have hcount := h.perm.count_eq p
    have hsame := congrArg (List.count p) horder
    simp only [List.count_append] at hcount hsame ⊢
    rw [hqueued, hover, hunreached]
    omega
  order := by
    rw [hqueued, horder]
    exact h.order

theorem SharedDispatch.Accounted.drain {s : SharedDispatch π T} (h : s.Accounted)
    (hpc : s.pc = .asleep) (tick : T) (cover : Option π) : (s.drain tick cover).Accounted := by
  unfold SharedDispatch.drain
  split
  · rename_i pkt hpending
    refine h.of_eq rfl rfl rfl ?_
    rw [hpc, hpending]
    simp [DispatchPc.real, SharedDispatch.sentReal]
  · split
    · refine h.of_eq rfl rfl rfl ?_
      rw [hpc]
      simp [DispatchPc.real, SharedDispatch.sentReal]
    · exact h

theorem SharedDispatch.Accounted.connect {s : SharedDispatch π T} (h : s.Accounted) {tick : T}
    {haveReal : Bool} {out : π} (hpc : s.pc = .holding tick haveReal out) :
    { s with pc := .asleep, sent := s.sent ++ [(tick, haveReal, out)] }.Accounted := by
  refine h.of_eq rfl rfl rfl ?_
  rw [hpc]
  cases haveReal <;> simp [DispatchPc.real, SharedDispatch.sentReal]

theorem SharedDispatch.Accounted.unreached {s : SharedDispatch π T} (h : s.Accounted) {tick : T}
    {out : π} (hpc : s.pc = .holding tick true out) :
    { s with pc := .asleep, unreached := s.unreached ++ [out] }.Accounted where
  perm := by
    classical
    refine List.perm_iff_count.mpr fun p => ?_
    have hcount := h.perm.count_eq p
    rw [hpc] at hcount
    change s.queued.count p = List.count p (s.sentReal ++ (s.unreached ++ [out]) ++ s.overwritten
      ++ [] ++ s.pending.toList)
    change _ = List.count p (_ ++ [out] ++ _) at hcount
    simp only [List.count_append, List.count_nil] at hcount ⊢
    omega
  order := by
    have horder := h.order
    rw [hpc] at horder
    change (s.sentReal ++ [] ++ s.pending.toList).Sublist s.queued
    exact (((List.nil_sublist _).append_left _).append_right _).trans horder

theorem SharedDispatch.Accounted.step {s : SharedDispatch π T} (h : s.Accounted)
    (op : DispatchOp π T) : (dispatchStep s op).Accounted := by
  cases op with
  | queue pkt => exact h.queue pkt
  | drain tick ready cover =>
    cases hpc : s.pc with
    | holding tick' haveReal out =>
      simp only [dispatchStep, hpc]
      exact h
    | asleep =>
      simp only [dispatchStep, hpc]
      split
      · exact h.drain hpc tick cover
      · exact h
  | connect accepted =>
    cases hpc : s.pc with
    | asleep =>
      simp only [dispatchStep, hpc]
      exact h
    | holding tick haveReal out =>
      simp only [dispatchStep, hpc]
      split
      · exact h.connect hpc
      · split
        · rename_i hreal
          rw [hreal] at hpc
          exact h.unreached hpc
        · rename_i hreal
          rw [Bool.not_eq_true] at hreal
          refine h.of_eq rfl rfl rfl ?_
          rw [hpc, hreal]
          rfl

/-- Only a request that finds the mailbox full has a packet overwritten. -/
theorem overwritten_iff (s : SharedDispatch π T) (op : DispatchOp π T) :
    (dispatchStep s op).overwritten = []
      ↔ s.overwritten = [] ∧ (op.isQueue = true → s.pending = none) := by
  cases op with
  | queue pkt =>
    change s.overwritten ++ s.pending.toList = [] ↔ _
    cases hpending : s.pending <;> simp [DispatchOp.isQueue]
  | drain tick ready cover =>
    have hkept : (dispatchStep s (.drain tick ready cover)).overwritten = s.overwritten := by
      cases hpc : s.pc <;> cases ready <;> cases hpending : s.pending <;> cases cover <;>
        simp [dispatchStep, SharedDispatch.drain, hpc, hpending]
    rw [hkept]
    simp [DispatchOp.isQueue]
  | connect accepted =>
    have hkept : (dispatchStep s (.connect accepted)).overwritten = s.overwritten := by
      cases hpc : s.pc with
      | asleep => simp [dispatchStep, hpc]
      | holding tick haveReal out =>
        cases accepted <;> cases haveReal <;> simp [dispatchStep, hpc]
    rw [hkept]
    simp [DispatchOp.isQueue]

/-- Every request's packet is sent, or found no entry node, or was overwritten, or has still to go
out, and it is in one of these places only; those sent are in order. Nothing is overwritten exactly
if every request found the mailbox empty. -/
theorem shared_dispatch_accounts (ops : List (DispatchOp π T)) :
    let s := Machine.run dispatchStep ops (.initial π T)
    s.queued.Perm (s.sentReal ++ s.unreached ++ s.overwritten ++ s.pc.real ++ s.pending.toList) ∧
      (s.sentReal ++ s.pc.real ++ s.pending.toList).Sublist s.queued ∧
      (s.overwritten = [] ↔ Machine.StepsMeet dispatchStep
        (fun s op => op.isQueue = true → s.pending = none) ops (.initial π T)) := by
  have haccounted : (Machine.run dispatchStep ops (.initial π T)).Accounted :=
    Machine.run_keeps _ _ (fun s op (h : s.Accounted) => h.step op) ops .initial
  have hover := Machine.run_iff_stepsMeet (P := fun s => s.overwritten = []) dispatchStep
    overwritten_iff ops (.initial π T)
  exact ⟨haccounted.perm, haccounted.order, hover.trans (and_iff_right rfl)⟩

end

end AnonSecNet.Client
