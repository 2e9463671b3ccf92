import AnonSecNet.Foundation.Machine
import Mathlib.Data.Fintype.Basic

/-! The event objects of `posix_compat.h`, on which every thread of the programs waits: a flag, a
mutex and a condition variable. A step is a critical section, or what the system does to a thread
that sleeps. -/
namespace AnonSecNet.PosixCompat
open Machine

/-- What `pthread_cond_timedwait` has returned. -/
inductive CondErr where
  | none
  | timedOut
  | other
deriving DecidableEq

/-- A thread within `WaitForSingleObject`: in the wait set of the condition variable, or out of it
and before its turn with the mutex. `timed` is a wait that is not `INFINITE`. -/
inductive Waiter where
  | out
  | asleep (timed : Bool)
  | woken (timed : Bool) (err : CondErr)
deriving DecidableEq

inductive WaitResult where
  | object0
  | timeout
  | failed
deriving DecidableEq

/-- The calls on the event, in the order in which they take effect. -/
inductive Call (n : Nat) where
  | set
  | reset
  | wait (thread : Fin n) (timed : Bool) (result : WaitResult)

/-- `struct win_handle` of an event, and the threads that use it. -/
structure Event (n : Nat) where
  signaled : Bool
  waiter : Fin n → Waiter
  calls : List (Call n)

variable {n : Nat}

/-- `CreateEvent`. -/
def Event.create (initialState : Bool) : Event n := ⟨initialState, fun _ => .out, []⟩

inductive EventAct (n : Nat) where
  /-- `pick` is whom `pthread_cond_signal` wakes. -/
  | set (pick : Fin n → Bool)
  | reset
  | wait (thread : Fin n) (timed : Bool)
  /-- The condition variable lets a thread go, for no reason or because its time is over. -/
  | unblock (thread : Fin n) (err : CondErr)
  | resume (thread : Fin n)

def Waiter.wake : Waiter → Waiter
  | .asleep timed => .woken timed .none
  | w => w

def Waiter.isAsleep : Waiter → Bool
  | .asleep _ => true
  | _ => false

/-- At least one of the threads that sleep, if there are any. -/
def Event.picked (e : Event n) (pick : Fin n → Bool) (thread : Fin n) : Bool :=
  pick thread || !decide (∃ t, (e.waiter t).isAsleep = true ∧ pick t = true)

section
variable (manualReset : Bool)

def Event.put (e : Event n) (thread : Fin n) (w : Waiter) : Event n :=
  { e with waiter := Function.update e.waiter thread w }

def Event.returns (e : Event n) (thread : Fin n) (timed : Bool) (result : WaitResult) : Event n :=
  { e.put thread .out with
    -- Auto-reset: the signal is consumed.
    signaled := if result = .object0 ∧ ¬ manualReset then false else e.signaled
    calls := e.calls ++ [.wait thread timed result] }

def setEvent (e : Event n) (pick : Fin n → Bool) : Event n where
  signaled := true
  waiter t := if manualReset || e.picked pick t then (e.waiter t).wake else e.waiter t
  calls := e.calls ++ [.set]

def resetEvent (e : Event n) : Event n :=
  { e with signaled := false, calls := e.calls ++ [.reset] }

/-- `WaitForSingleObject` up to its return or its first sleep. -/
def waitForSingleObject (e : Event n) (thread : Fin n) (timed : Bool) : Event n :=
  if e.signaled then e.returns manualReset thread timed .object0
  else e.put thread (.asleep timed)

/-- The loop around the condition variable. -/
def resumeWait (e : Event n) (thread : Fin n) (timed : Bool) (err : CondErr) : Event n :=
  if e.signaled then e.returns manualReset thread timed .object0
  else
    match err with
    | .none => e.put thread (.asleep timed)
    | .timedOut => e.returns manualReset thread timed .timeout
    | .other => e.returns manualReset thread timed .failed

def eventStep (e : Event n) : EventAct n → Event n
  | .set pick => setEvent manualReset e pick
  | .reset => resetEvent e
  | .wait thread timed =>
    match e.waiter thread with
    | .out => waitForSingleObject manualReset e thread timed
    | _ => e
  | .unblock thread err =>
    match e.waiter thread with
    | .asleep timed => e.put thread (.woken timed (if timed then err else .none))
    | _ => e
  | .resume thread =>
    match e.waiter thread with
    | .woken timed err => resumeWait manualReset e thread timed err
    | _ => e

/-! What an event is. -/

/-- A call at one moment, on nothing but the flag; `none` for a call that cannot return this. -/
def callEvent (signaled : Bool) : Call n → Option Bool
  | .set => some true
  | .reset => some false
  | .wait _ _ .object0 => if signaled then some manualReset else none
  | .wait _ timed _ => if timed ∧ ¬ signaled then some false else none

def callEvents (signaled : Bool) (calls : List (Call n)) : Option Bool :=
  calls.foldlM (callEvent manualReset) signaled

end

def Call.isSet : Call n → Bool
  | .set => true
  | _ => false

def Call.isRelease : Call n → Bool
  | .wait _ _ .object0 => true
  | _ => false

section
variable {manualReset : Bool} {e : Event n}

theorem callEvents_concat (signaled : Bool) (calls : List (Call n)) (c : Call n) :
    callEvents manualReset signaled (calls ++ [c])
      = (callEvents manualReset signaled calls).bind fun s => callEvent manualReset s c := by
  unfold callEvents
  rw [List.foldlM_append]
  simp

theorem release_le {signaled signaled' : Bool} {c : Call n}
    (h : callEvent false signaled c = some signaled') :
    (if c.isRelease then 1 else 0) + signaled'.toNat
      ≤ (if c.isSet then 1 else 0) + signaled.toNat := by
  cases c with
  | set =>
    obtain rfl := Option.some.inj h
    simp [Call.isRelease, Call.isSet]
  | reset =>
    obtain rfl := Option.some.inj h
    simp [Call.isRelease, Call.isSet]
  | wait thread timed result =>
    cases result <;> cases signaled <;> simp_all [callEvent, Call.isRelease, Call.isSet]

/-- An auto-reset event releases at most one thread for a signal. -/
theorem releases_le {signaled signaled' : Bool} {calls : List (Call n)}
    (h : callEvents false signaled calls = some signaled') :
    calls.countP Call.isRelease + signaled'.toNat ≤ calls.countP Call.isSet + signaled.toNat := by
  induction calls generalizing signaled with
  | nil =>
    obtain rfl := Option.some.inj h
    exact Nat.le_refl _
  | cons c calls ih =>
    obtain ⟨s, hs, hrest⟩ := Option.bind_eq_some_iff.mp h
    have hhead := release_le hs
    have hle := ih hrest
    rw [List.countP_cons, List.countP_cons]
    omega

/-- The calls so far are those of an event whose flag is this one. -/
structure Event.Faithful (manualReset initialState : Bool) (e : Event n) : Prop where
  calls : callEvents manualReset initialState e.calls = some e.signaled
  timed : ∀ t timed err, e.waiter t = .woken timed err → err ≠ .none → timed = true
  awake : e.signaled = true → ∀ t, (e.waiter t).isAsleep = true →
    manualReset = false ∧ ∃ t' timed err, e.waiter t' = .woken timed err

variable {initialState : Bool}

/-- A call that takes effect while the flag has this value. -/
theorem Event.Faithful.calls_concat (h : e.Faithful manualReset initialState) {c : Call n}
    {signaled : Bool} (hc : callEvent manualReset e.signaled c = some signaled) :
    callEvents manualReset initialState (e.calls ++ [c]) = some signaled := by
  rw [callEvents_concat, h.calls, Option.bind_some, hc]

theorem Event.put_waiter {thread t : Fin n} {w : Waiter}
    (P : Waiter → Prop) (hother : P (e.waiter t)) (hw : P w) : P ((e.put thread w).waiter t) := by
  change P (Function.update e.waiter thread w t)
  by_cases hne : t = thread
  · rw [hne, Function.update_self]
    exact hw
  · rw [Function.update_of_ne hne]
    exact hother

/-- A thread that has left, or has lost its sleep, lets nobody down while the flag is down. -/
theorem Event.Faithful.put (h : e.Faithful manualReset initialState) {thread : Fin n} {w : Waiter}
    (hdown : e.signaled = false)
    (htimed : ∀ timed err, w = .woken timed err → err ≠ .none → timed = true) :
    (e.put thread w).Faithful manualReset initialState where
  calls := h.calls
  timed t := Event.put_waiter (fun w => ∀ timed err, w = .woken timed err → err ≠ .none →
    timed = true) (h.timed t) htimed
  awake hup := by
    rw [show (e.put thread w).signaled = e.signaled from rfl, hdown] at hup
    cases hup

theorem Event.Faithful.returns (h : e.Faithful manualReset initialState) (thread : Fin n)
    {timed : Bool} {result : WaitResult}
    (hresult : if result = .object0 then e.signaled = true
      else e.signaled = false ∧ timed = true) :
    (e.returns manualReset thread timed result).Faithful manualReset initialState := by
  constructor
  · refine h.calls_concat ?_
    cases result with
    | object0 =>
      rw [if_pos rfl] at hresult
      cases manualReset <;> simp [callEvent, Event.returns, hresult]
    | timeout =>
      rw [if_neg nofun] at hresult
      simp [callEvent, Event.returns, hresult]
    | failed =>
      rw [if_neg nofun] at hresult
      simp [callEvent, Event.returns, hresult]
  · intro t
    exact Event.put_waiter (fun w => ∀ timed err, w = .woken timed err → err ≠ .none →
      timed = true) (h.timed t) nofun
  · intro hup t hasleep
    change (if result = .object0 ∧ ¬ manualReset = true then false else e.signaled) = true at hup
    split at hup
    · cases hup
    · rename_i hkept
      change (Function.update e.waiter thread .out t).isAsleep = true at hasleep
      have hold : (e.waiter t).isAsleep = true := by
        by_cases hne : t = thread
        · rw [hne, Function.update_self] at hasleep
          cases hasleep
        · rw [Function.update_of_ne hne] at hasleep
          exact hasleep
      obtain ⟨hauto, -⟩ := h.awake hup t hold
      cases result with
      | object0 =>
        rw [hauto] at hkept
        exact absurd ⟨rfl, Bool.false_ne_true⟩ hkept
      | timeout =>
        rw [if_neg nofun, hup] at hresult
        cases hresult.1
      | failed =>
        rw [if_neg nofun, hup] at hresult
        cases hresult.1

theorem setEvent_faithful (h : e.Faithful manualReset initialState) (pick : Fin n → Bool) :
    (setEvent manualReset e pick).Faithful manualReset initialState := by
  have hwaiter : ∀ t, (setEvent manualReset e pick).waiter t =
      if manualReset || e.picked pick t then (e.waiter t).wake else e.waiter t := fun _ => rfl
  constructor
  · exact h.calls_concat rfl
  · intro t timed err hw herr
    rw [hwaiter] at hw
    cases hold : e.waiter t with
    | out =>
      rw [hold] at hw
      split at hw <;> cases hw
    | asleep timed' =>
      rw [hold] at hw
      split at hw
      · cases hw
        exact absurd rfl herr
      · cases hw
    | woken timed' err' =>
      rw [hold] at hw
      have hsame : Waiter.woken timed' err' = .woken timed err := by
        split at hw <;> exact hw
      exact h.timed t timed err (hold.trans hsame) herr
  · intro _ t hasleep
    rw [hwaiter] at hasleep
    split at hasleep
    · cases hold : e.waiter t <;> rw [hold] at hasleep <;> cases hasleep
    · rename_i hleft
      rw [Bool.or_eq_true, not_or, Event.picked, Bool.or_eq_true, not_or, Bool.not_eq_true',
        Bool.not_eq_false, decide_eq_true_iff] at hleft
      -- Somebody who sleeps has been picked, and is woken.
      obtain ⟨hauto, -, t', hsleeps, hpick⟩ := hleft
      refine ⟨Bool.eq_false_of_not_eq_true hauto, t', ?_⟩
      rw [hwaiter, Event.picked, hpick, Bool.true_or, Bool.or_true, if_pos rfl]
      cases hold : e.waiter t' with
      | asleep timed => exact ⟨timed, .none, rfl⟩
      | out =>
        rw [hold] at hsleeps
        cases hsleeps
      | woken timed err =>
        rw [hold] at hsleeps
        cases hsleeps

theorem unblock_faithful (h : e.Faithful manualReset initialState) {thread : Fin n} {timed : Bool}
    (hasleep : e.waiter thread = .asleep timed) (err : CondErr) :
    (e.put thread (.woken timed (if timed then err else .none))).Faithful manualReset
      initialState := by
  constructor
  · exact h.calls
  · intro t
    refine Event.put_waiter (fun w => ∀ timed err, w = .woken timed err → err ≠ .none →
      timed = true) (h.timed t) ?_
    intro timed' err' heq herr
    cases timed with
    | true =>
      cases heq
      rfl
    | false =>
      cases heq
      exact absurd rfl herr
  · intro hup t _
    have hsleeps : (e.waiter thread).isAsleep = true := by
      rw [hasleep]
      rfl
    exact ⟨(h.awake hup thread hsleeps).1, thread, timed, _, Function.update_self _ _ _⟩

theorem eventStep_faithful (h : e.Faithful manualReset initialState) (a : EventAct n) :
    (eventStep manualReset e a).Faithful manualReset initialState := by
  cases a with
  | set pick => exact setEvent_faithful h pick
  | reset => exact ⟨h.calls_concat rfl, h.timed, nofun⟩
  | wait thread timed =>
    dsimp only [eventStep]
    split
    · unfold waitForSingleObject
      split
      · rename_i hup
        exact h.returns thread hup
      · rename_i hdown
        exact h.put (Bool.eq_false_of_not_eq_true hdown) nofun
    · exact h
  | unblock thread err =>
    dsimp only [eventStep]
    split
    · rename_i timed hasleep
      exact unblock_faithful h hasleep err
    · exact h
  | resume thread =>
    dsimp only [eventStep]
    split
    · rename_i timed err hwoken
      unfold resumeWait
      split
      · rename_i hup
        exact h.returns thread hup
      · rename_i hdown
        have hdown := Bool.eq_false_of_not_eq_true hdown
        have htimed := h.timed thread timed err hwoken
        split
        · exact h.put hdown nofun
        · exact h.returns thread ⟨hdown, htimed nofun⟩
        · exact h.returns thread ⟨hdown, htimed nofun⟩
    · exact h

/-- However the threads that set, reset and wait for an event are mixed, with spurious wake-ups and
timeouts: the calls look as if each took effect at one moment; no wake-up is lost, since a thread
can sleep beside a signal only while another one is on its way to take it; and an auto-reset event
releases no more threads than it was set. -/
theorem event_linearizable (manualReset initialState : Bool) (as : List (EventAct n)) :
    let e := run (eventStep manualReset) as (Event.create initialState)
    callEvents manualReset initialState e.calls = some e.signaled ∧
      (e.signaled = true → ∀ t, (e.waiter t).isAsleep = true →
        manualReset = false ∧ ∃ t' timed err, e.waiter t' = .woken timed err ∧
          (eventStep manualReset e (.resume t')).calls = e.calls ++ [.wait t' timed .object0]) ∧
      (manualReset = false → e.calls.countP Call.isRelease + e.signaled.toNat ≤
        e.calls.countP Call.isSet + initialState.toNat) := by
  intro e
  have h : e.Faithful manualReset initialState := run_keeps (eventStep manualReset)
    (Event.Faithful manualReset initialState) (fun _ a hs => eventStep_faithful hs a) as
    ⟨rfl, nofun, fun _ _ => nofun⟩
  refine ⟨h.calls, ?_, ?_⟩
  · intro hup t hasleep
    obtain ⟨hauto, t', timed, err, hwoken⟩ := h.awake hup t hasleep
    refine ⟨hauto, t', timed, err, hwoken, ?_⟩
    have hresumed : resumeWait manualReset e t' timed err
        = e.returns manualReset t' timed .object0 := if_pos hup
    dsimp only [eventStep]
    rw [hwoken]
    exact congrArg Event.calls hresumed
  · intro hauto
    have hcalls := h.calls
    rw [hauto] at hcalls
    exact releases_le hcalls

end

end AnonSecNet.PosixCompat
