import AnonSecNet.Foundation.Checked
import AnonSecNet.Gateway.ReplyDelivery
import AnonSecNet.Retrieval.Dispatch

/-! How `heartbeat_thread` of `sender.c` walks through a HEARTBEAT reply, with every access to
its buffers checked. -/
namespace AnonSecNet.Retrieval
open Octets Cache Checked
open Gateway (answeredCrowd)

/-- `respond_work_t`. -/
structure RespondWork where
  key : Bytes respondKeySize
  rPub : PubKey

/-- What a worker takes for its wire key. -/
def RespondWork.name (w : RespondWork) : List UInt8 := cstr w.key.toList

/-- The loop over the entries of the reply `rbuf`, `left` of them to come, the next one at
`off`. The key of a work is zeroed before the copy. `malloc` and `createThread` tell whether
these calls succeed for entry `i`. -/
def extractWork (malloc createThread : Nat → Bool) (rbuf : List UInt8) :
    Nat → Nat → Nat → Except Overrun (List RespondWork)
  | 0, _, _ => .ok []
  | left + 1, i, off =>
    if rbuf.length < off + 1 then .ok []
    else do
      let klen ← load rbuf off
      if respondKeySize - 1 < klen.toNat ∨ rbuf.length < off + 1 + klen.toNat + ecPubkeyLen then
        return []
      if malloc i = false then return []
      let key ← copy rbuf (off + 1) klen.toNat respondKeySize
      let rPub ← copy rbuf (off + 1 + klen.toNat) ecPubkeyLen ecPubkeyLen
      let works ← extractWork malloc createThread rbuf left (i + 1)
        (off + 1 + klen.toNat + ecPubkeyLen)
      return if createThread i then
        ⟨Bytes.fit respondKeySize key, Bytes.fit ecPubkeyLen rPub⟩ :: works
      else works

/-- The works that get a worker, from the bytes that were received. -/
def heartbeatWork (malloc createThread : Nat → Bool) (rbuf : List UInt8) :
    Except Overrun (List RespondWork) :=
  if rbuf.length < 1 then .ok []
  else do
    let count ← load rbuf 0
    extractWork malloc createThread rbuf count.toNat 0 1

theorem cstr_fit {n : Nat} {raw : List UInt8} (h : raw.length ≤ n) :
    cstr (Bytes.fit n raw).toList = cstr raw := by
  have hzeros : (List.replicate (n - raw.length) (0 : UInt8)).takeWhile (· ≠ 0) = [] := by
    rw [List.takeWhile_eq_nil_iff]
    simp
  have hfit : (Bytes.fit n raw).toList = raw ++ List.replicate (n - raw.length) 0 := by
    unfold Bytes.fit
    dsimp only
    rw [List.take_append, List.take_of_length_le h, List.take_replicate]
    congr 2
    omega
  unfold cstr
  rw [hfit, List.takeWhile_append, hzeros, List.append_nil]
  split
  · rename_i hall
    exact (List.IsPrefix.eq_of_length (List.takeWhile_prefix _) hall).symm
  · rfl

/-- The loop stays inside the reply and the key buffers; when nothing fails it finds the entries
of the reply. -/
theorem extractWork_spec (malloc createThread : Nat → Bool) (rbuf : List UInt8)
    (left i off : Nat) (hoff : off ≤ rbuf.length) :
    ∃ works, extractWork malloc createThread rbuf left i off = .ok works ∧ works.length ≤ left ∧
      ((∀ j, malloc j = true) → (∀ j, createThread j = true) →
        works.map (fun w => (w.name, w.rPub))
          = (parseEntries left (rbuf.drop off)).map fun e => (e.1.1, e.2)) := by
  induction left generalizing i off with
  | zero => exact ⟨[], rfl, Nat.le_refl 0, fun _ _ => rfl⟩
  | succ left ih =>
    unfold extractWork
    cases hdrop : rbuf.drop off with
    | nil =>
      have hend := List.drop_eq_nil_iff.mp hdrop
      exact ⟨[], if_pos (by omega), Nat.zero_le _, fun _ _ => rfl⟩
    | cons klen rest =>
      have hlen := congrArg List.length hdrop
      rw [List.length_drop, List.length_cons] at hlen
      rw [if_neg (by omega), load_drop hdrop]
      simp only [bind, Except.bind, pure, Except.pure]
      have hrest : rbuf.drop (off + 1) = rest := by
        rw [← List.drop_drop, hdrop, List.drop_succ_cons, List.drop_zero]
      unfold parseEntries
      by_cases hbad : respondKeySize - 1 < klen.toNat ∨ rest.length < klen.toNat + ecPubkeyLen
      · rw [if_pos (by omega), if_pos hbad]
        exact ⟨[], rfl, Nat.zero_le _, fun _ _ => rfl⟩
      · have hcond : ¬ (respondKeySize - 1 < klen.toNat ∨
            rbuf.length < off + 1 + klen.toNat + ecPubkeyLen) := by omega
        rw [if_neg hcond, if_neg hbad]
        by_cases hmalloc : malloc i = false
        · rw [if_pos hmalloc]
          refine ⟨[], rfl, Nat.zero_le _, fun hall => ?_⟩
          rw [hall i] at hmalloc
          cases hmalloc
        · have hkey : klen.toNat ≤ respondKeySize := by
            simp only [respondKeySize] at hbad ⊢
            omega
          obtain ⟨works, hworks, hfew, hfound⟩ := ih (i + 1)
            (off + 1 + klen.toNat + ecPubkeyLen) (by omega)
          rw [if_neg hmalloc, copy_eq (by omega) hkey, copy_eq (by omega) (le_refl _), hworks]
          dsimp only
          refine ⟨_, rfl, ?_, fun hmallocs hthreads => ?_⟩
          · split
            · exact Nat.succ_le_succ hfew
            · exact hfew.trans (Nat.le_succ left)
          · have hname : cstr (Bytes.fit respondKeySize (rest.take klen.toNat)).toList
                = cstr (rest.take klen.toNat) :=
              cstr_fit ((List.length_take_le _ _).trans hkey)
            have hpub : Bytes.fit ecPubkeyLen ((rest.drop klen.toNat).take ecPubkeyLen)
                = Bytes.fit ecPubkeyLen (rest.drop klen.toNat) := by
              have hroom : ecPubkeyLen ≤ (rest.drop klen.toNat).length := by
                rw [List.length_drop]
                omega
              ext1
              rw [Bytes.toList_fit_of_le hroom, Bytes.toList_fit_of_le (by simp at hroom ⊢; omega),
                List.take_take, Nat.min_self]
            rw [if_pos (hthreads i), List.map_cons, List.map_cons, hfound hmallocs hthreads]
            simp only [RespondWork.name, ← List.drop_drop, hrest, hname, hpub]
            rfl

theorem heartbeatWork_spec (malloc createThread : Nat → Bool) (rbuf : List UInt8) :
    ∃ works, heartbeatWork malloc createThread rbuf = .ok works ∧ works.length ≤ 255 ∧
      ((∀ j, malloc j = true) → (∀ j, createThread j = true) →
        works.map (fun w => (w.name, w.rPub)) = (dispatched rbuf).map fun e => (e.1.1, e.2)) := by
  cases rbuf with
  | nil => exact ⟨[], rfl, Nat.zero_le _, fun _ _ => rfl⟩
  | cons count rest =>
    obtain ⟨works, hworks, hfew, hfound⟩ := extractWork_spec malloc createThread (count :: rest)
      count.toNat 0 1 (by simp)
    refine ⟨works, ?_, hfew.trans (Nat.le_of_lt_succ count.toNat_lt), hfound⟩
    unfold heartbeatWork
    rw [if_neg (by simp), load_drop (by rfl)]
    exact hworks

/-- From the bytes of a HEARTBEAT reply the loop takes the handshakes that wait, in slot order,
as many as fit the reply and as its first byte says; and no received bytes, of any length, make
it leave the reply or a key buffer or start more than 255 workers. -/
theorem heartbeat_read_back (s : CacheState) (hkeys : ∀ i, 0 ∉ (s.pending i).key.1)
    (malloc createThread : Nat → Bool) (rbuf : List UInt8) :
    (∃ works, heartbeatWork (fun _ => true) (fun _ => true) (handleHeartbeat s) = .ok works ∧
        works.map (fun w => (w.name, w.rPub)) = s.listed.map (fun p => (p.key.1, p.rEphemeralPub)) ∧
        (handleHeartbeat s).head? = some (UInt8.ofNat works.length) ∧ works.length < 256) ∧
      ∃ works, heartbeatWork malloc createThread rbuf = .ok works ∧ works.length ≤ 255 := by
  obtain ⟨works, hworks, hfew, hfound⟩ := heartbeatWork_spec (fun _ => true) (fun _ => true)
    (handleHeartbeat s)
  have hlisted : works.map (fun w => (w.name, w.rPub))
      = s.listed.map fun p => (p.key.1, p.rEphemeralPub) := by
    rw [hfound (fun _ => rfl) (fun _ => rfl), dispatched_heartbeat, List.map_map]
    refine List.map_congr_left fun p hp => ?_
    obtain ⟨⟨i, rfl⟩, -, -⟩ := mem_listed hp
    have hplain : cstr (s.pending i).key.1 = (s.pending i).key.1 :=
      List.takeWhile_eq_self_iff.mpr fun c hc => by
        rw [decide_eq_true_eq]
        rintro rfl
        exact hkeys i hc
    exact congrArg (·, (s.pending i).rEphemeralPub) hplain
  have hcount : s.listed.length = works.length := by
    simpa using (congrArg List.length hlisted).symm
  obtain ⟨works', hworks', hfew', -⟩ := heartbeatWork_spec malloc createThread rbuf
  refine ⟨⟨works, hworks, hlisted, ?_, by omega⟩, works', hworks', hfew'⟩
  rw [handleHeartbeat_listed, hcount]
  rfl

/-- Two receivers of nine have their answers, and one of the other seven finds no room. -/
theorem heartbeat_read_back_answeredCrowd :
    (∀ i, 0 ∉ (answeredCrowd.pending i).key.1) ∧ answeredCrowd.waiting.length = 7 ∧
      (∃ works,
        heartbeatWork (fun _ => true) (fun _ => true) (handleHeartbeat answeredCrowd) = .ok works ∧
          works.map (fun w => (w.name, w.rPub))
            = answeredCrowd.listed.map (fun p => (p.key.1, p.rEphemeralPub)) ∧
          (handleHeartbeat answeredCrowd).head? = some (UInt8.ofNat works.length) ∧
          works.length = 6) ∧
      ∃ works,
        heartbeatWork (· = 0) (fun _ => true) (255 :: (handleHeartbeat answeredCrowd).drop 5)
          = .ok works ∧ works.length ≤ 255 := by
  have hkeys : ∀ i, 0 ∉ (answeredCrowd.pending i).key.1 := by decide +kernel
  have hlisted : answeredCrowd.listed.length = 6 := by decide +kernel
  obtain ⟨⟨works, hworks, hread, hcount, -⟩, hostile⟩ := heartbeat_read_back answeredCrowd hkeys
    (· = 0) (fun _ => true) (255 :: (handleHeartbeat answeredCrowd).drop 5)
  refine ⟨hkeys, by decide +kernel, ⟨works, hworks, hread, hcount, ?_⟩, hostile⟩
  have hlength := congrArg List.length hread
  rw [List.length_map, List.length_map, hlisted] at hlength
  exact hlength

end AnonSecNet.Retrieval
