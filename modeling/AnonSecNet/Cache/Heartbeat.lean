import AnonSecNet.Cache.Server
import AnonSecNet.Foundation.Packing

/-! How long the HEARTBEAT reply gets: it lists the waiting handshakes in slot order until
the next one does not fit. -/
namespace AnonSecNet.Cache
open Octets Packing

/-- The handshakes HEARTBEAT lists, in slot order. -/
def waitingOf (ps : List PendingHandshake) : List PendingHandshake :=
  ps.filter fun p => p.inUse && !p.ready

def CacheState.waiting (s : CacheState) : List PendingHandshake := waitingOf (List.ofFn s.pending)

def entrySize (p : PendingHandshake) : Nat := 1 + p.key.1.length + ecPubkeyLen

theorem length_heartbeatEntry (p : PendingHandshake) :
    (heartbeatEntry p).length = entrySize p := by
  simp [heartbeatEntry, entrySize]
  omega

theorem length_entries (ps : List PendingHandshake) :
    (ps.flatMap heartbeatEntry).length = total entrySize ps := by
  rw [List.length_flatMap, total]
  congr 2
  funext p
  exact length_heartbeatEntry p

theorem waitingOf_cons (p : PendingHandshake) (ps : List PendingHandshake) :
    waitingOf (p :: ps)
      = if p.inUse = false ∨ p.ready = true then waitingOf ps else p :: waitingOf ps := by
  unfold waitingOf
  rw [List.filter_cons]
  cases p.inUse <;> cases p.ready <;> rfl

/-- The loop packs the waiting handshakes into the room behind `acc`. -/
theorem heartbeatLoop_eq (ps : List PendingHandshake) (acc : List UInt8) (count : Nat)
    (hcount : count + ps.length < 255) :
    heartbeatLoop ps acc count
      = (acc ++ (packed entrySize (maxInnerPayload - 1 - acc.length) (waitingOf ps)).flatMap
          heartbeatEntry,
        count + (packed entrySize (maxInnerPayload - 1 - acc.length) (waitingOf ps)).length) := by
  induction ps generalizing acc count with
  | nil => simp [heartbeatLoop, waitingOf, packed]
  | cons p ps ih =>
    rw [List.length_cons] at hcount
    unfold heartbeatLoop
    rw [if_neg (by omega), waitingOf_cons]
    split
    · exact ih acc count (by omega)
    · unfold packed
      have hfits : entrySize p ≤ maxInnerPayload - 1 - acc.length ↔
          ¬ maxInnerPayload < 1 + acc.length + (1 + p.key.1.length + ecPubkeyLen) := by
        unfold entrySize
        simp
        omega
      split
      · rename_i hfull
        rw [if_neg (fun h => hfits.mp h hfull)]
        simp
      · rename_i hroom
        rw [if_pos (hfits.mpr hroom), ih _ _ (by omega), List.length_append,
          length_heartbeatEntry, Nat.sub_sub _ acc.length]
        simp
        omega

/-- The handshakes that fit into the reply. -/
def CacheState.listed (s : CacheState) : List PendingHandshake :=
  packed entrySize (maxInnerPayload - 1) s.waiting

theorem handleHeartbeat_listed (s : CacheState) :
    handleHeartbeat s = UInt8.ofNat s.listed.length :: s.listed.flatMap heartbeatEntry := by
  unfold handleHeartbeat CacheState.listed CacheState.waiting
  rw [heartbeatLoop_eq _ _ _ (by simp)]
  simp

theorem mem_listed {s : CacheState} {p : PendingHandshake} (h : p ∈ s.listed) :
    (∃ i, s.pending i = p) ∧ p.inUse = true ∧ p.ready = false := by
  have hmem := (packed_isPrefix entrySize (maxInnerPayload - 1) s.waiting).subset h
  obtain ⟨hslot, hwaiting⟩ := List.mem_filter.mp hmem
  exact ⟨List.mem_ofFn.mp hslot, by simpa using hwaiting⟩

theorem length_listed_le (s : CacheState) : s.listed.length ≤ maxPending := by
  have hpacked := (packed_isPrefix entrySize (maxInnerPayload - 1) s.waiting).length_le
  have hwaiting := List.length_filter_le (fun p : PendingHandshake => p.inUse && !p.ready)
    (List.ofFn s.pending)
  rw [List.length_ofFn] at hwaiting
  exact hpacked.trans hwaiting

theorem handleHeartbeat_eq (s : CacheState) :
    ∃ count, handleHeartbeat s
      = count :: (packed entrySize (maxInnerPayload - 1) s.waiting).flatMap heartbeatEntry := by
  unfold handleHeartbeat CacheState.waiting
  rw [heartbeatLoop_eq _ _ _ (by simp)]
  exact ⟨_, rfl⟩

theorem length_handleHeartbeat (s : CacheState) :
    (handleHeartbeat s).length
      = 1 + total entrySize (packed entrySize (maxInnerPayload - 1) s.waiting) := by
  obtain ⟨count, h⟩ := handleHeartbeat_eq s
  rw [h, List.length_cons, length_entries, Nat.add_comm]

/-- The reply leaves room for a prefix of `nonceLen` bytes exactly if no listing of the first
waiting handshakes fits without that prefix only. -/
theorem heartbeat_fits_iff (s : CacheState) (nonceLen : Nat) (hn : nonceLen < maxInnerPayload) :
    (handleHeartbeat s).length ≤ maxInnerPayload - nonceLen ↔
      ∀ ps, ps <+: s.waiting → 1 + total entrySize ps ≤ maxInnerPayload →
        1 + total entrySize ps ≤ maxInnerPayload - nonceLen := by
  have hpack := total_packed_le_iff entrySize (maxInnerPayload - 1)
    (maxInnerPayload - nonceLen - 1) s.waiting
  rw [length_handleHeartbeat]
  constructor
  · intro h ps hps hfit
    have := hpack.mp (by omega) ps hps (by omega)
    omega
  · intro h
    have := hpack.mpr fun ps hps hfit => by
      have := h ps hps (by omega)
      omega
    omega

theorem length_handleHeartbeat_le (s : CacheState) :
    (handleHeartbeat s).length ≤ maxInnerPayload := by
  have h := total_packed_le entrySize (maxInnerPayload - 1) s.waiting
  rw [length_handleHeartbeat]
  simp at h ⊢
  omega

end AnonSecNet.Cache
