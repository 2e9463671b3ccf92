import AnonSecNet.Config
import AnonSecNet.Foundation.RingBuffer
import Mathlib.Algebra.Order.Field.Basic
import Mathlib.Data.List.FinRange
import Mathlib.Data.List.Sort

/-! Parallel striping in `client.c`: which leg the next real packet goes out on. A `double` is an
element of `D`. -/
namespace AnonSecNet.Client

def stripeRecentMax : Nat := 256

instance : NeZero stripeRecentMax := ⟨by decide⟩

inductive StripePolicy where
  | iid
  | roundRobin
  | batch
  | latency
deriving DecidableEq

/-- What the policies keep of a leg; `recent` holds send times within the last RTT. -/
structure LegShare (D : Type*) where
  weight : D
  credit : D
  rttMs : D
  recent : RingBuffer Nat stripeRecentMax

/-- `g_legs` and the other `g_stripe_*`, `g_rr_*` and `g_batch_*` globals, for `k` legs. -/
structure Striping (D : Type*) (k : Nat) where
  policy : StripePolicy
  legs : Fin k → LegShare D
  equalWeights : Bool
  rrNext : Fin k
  batchOpen : Bool
  batchLeg : Fin k
  batchEndMs : Nat
  batchMeanMs : D
  window : Nat
  window_pos : 1 ≤ window
  window_le : window ≤ stripeRecentMax

/-- Two legs, before any packet. -/
def Striping.twoLegs (policy : StripePolicy) (equalWeights : Bool) (legs : Fin 2 → LegShare ℚ) :
    Striping ℚ 2 where
  policy := policy
  legs := legs
  equalWeights := equalWeights
  rrNext := 0
  batchOpen := false
  batchLeg := 0
  batchEndMs := 0
  batchMeanMs := 2000
  window := 8
  window_pos := by decide
  window_le := by decide

/-- One call of `stripe_pick_leg`: the clock, and what `stripe_uniform01` draws for the leg and
for the length of a batch. -/
structure StripeCall (D : Type*) where
  nowMs : Nat
  legDraw : D
  batchDraw : D

variable {D : Type*} [LinearOrder D] [Zero D] [One D] [Add D] [Sub D] [NatCast D] {k : Nat}
  [NeZero k]

/-! The weights of `stripe_config_init`. -/

section
variable [Div D]

/-- The leg weights scaled to their sum, and whether they are all alike. No list means that they
are. -/
def stripeWeights (k : Nat) [NeZero k] (list : List D) : Option ((Fin k → D) × Bool) :=
  if list ≠ [] ∧ list.length ≠ k then none
  else
    let w (i : Fin k) := if list = [] then 1 else list.getD i 0
    let total := (List.finRange k).foldl (fun total i => total + w i) 0
    if total ≤ 0 then none
    else some (fun i => w i / total, (List.finRange k).all fun i => list = [] ∨ w i = w 0)

end

/-! The policies. -/

def stripeDrawByWeight (s : Striping D k) (u : D) : Fin k :=
  let rec reach (acc : D) : List (Fin k) → Fin k
    | [] => Fin.ofNat k (k - 1)
    | i :: rest =>
      let acc := acc + (s.legs i).weight
      if u < acc then i else reach acc rest
  reach 0 (List.finRange k)

/-- The pass over the legs: each gains its weight, and `best` is the first of those with the
highest credit so far. -/
def gainCredits (legs : Fin k → LegShare D) (best : Fin k) :
    List (Fin k) → (Fin k → LegShare D) × Fin k
  | [] => (legs, best)
  | i :: rest =>
    let legs := Function.update legs i
      { legs i with credit := (legs i).credit + (legs i).weight }
    gainCredits legs (if (legs best).credit < (legs i).credit then i else best) rest

def pickRoundRobin (s : Striping D k) : Fin k × Striping D k :=
  if s.equalWeights then
    (s.rrNext, { s with rrNext := Fin.ofNat k (s.rrNext + 1) })
  else
    let (legs, best) := gainCredits s.legs 0 (List.finRange k)
    (best, { s with
      legs := Function.update legs best { legs best with credit := (legs best).credit - 1 } })

/-- `batchMs` is what the draw for the length of a batch comes to. -/
def pickBatch (batchMs : D → D → Nat) (s : Striping D k) (call : StripeCall D) :
    Fin k × Striping D k :=
  if s.batchOpen = false ∨ s.batchEndMs ≤ call.nowMs then
    let leg := stripeDrawByWeight s call.legDraw
    (leg, { s with
      batchOpen := true
      batchLeg := leg
      batchEndMs := call.nowMs + batchMs s.batchMeanMs call.batchDraw })
  else (s.batchLeg, s)

/-- A send at `t` has left the last RTT. -/
def LegShare.Expired (l : LegShare D) (nowMs t : Nat) : Prop := (t : D) ≤ (nowMs : D) - l.rttMs

instance (l : LegShare D) (nowMs t : Nat) : Decidable (l.Expired nowMs t) :=
  inferInstanceAs (Decidable ((t : D) ≤ (nowMs : D) - l.rttMs))

def LegShare.expire (l : LegShare D) (nowMs : Nat) : LegShare D :=
  { l with recent := l.recent.dropFrontWhile fun t => l.Expired nowMs t }

/-- A full buffer loses its oldest send. -/
def LegShare.record (l : LegShare D) (nowMs : Nat) : LegShare D :=
  { l with recent := l.recent.push fun _ => nowMs }

/-- The legs by RTT, by an insertion sort that moves a leg up past those with a higher one. The
sorted part stands last leg first. -/
def byRtt (legs : Fin k → LegShare D) : List (Fin k) :=
  ((List.finRange k).foldl
    (fun sorted i => sorted.orderedInsert (fun i j => (legs j).rttMs ≤ (legs i).rttMs) i)
    []).reverse

/-- The first leg in the order with room in its window, or else the first with the fewest
recent sends. -/
def chooseLeg (legs : Fin k → LegShare D) (window : Nat) : List (Fin k) → Fin k
  | [] => 0
  | first :: rest =>
    match (first :: rest).find? fun i => (legs i).recent.count < window with
    | some leg => leg
    | none => rest.foldl
        (fun chosen i => if (legs i).recent.count < (legs chosen).recent.count then i else chosen)
        first

def pickLatency (s : Striping D k) (nowMs : Nat) : Fin k × Striping D k :=
  let legs := fun i => (s.legs i).expire nowMs
  let chosen := chooseLeg legs s.window (byRtt legs)
  (chosen, { s with legs := Function.update legs chosen ((legs chosen).record nowMs) })

/-- Chooses the leg for the next real packet. -/
def stripePickLeg (batchMs : D → D → Nat) (s : Striping D k) (call : StripeCall D) :
    Fin k × Striping D k :=
  if k = 1 then (0, s)
  else
    match s.policy with
    | .roundRobin => pickRoundRobin s
    | .batch => pickBatch batchMs s call
    | .latency => pickLatency s call.nowMs
    | .iid => (stripeDrawByWeight s call.legDraw, s)

end AnonSecNet.Client
