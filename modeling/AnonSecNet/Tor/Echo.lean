import AnonSecNet.Tor.Circuit

/-! What `handle_sg_conn` reads of its buffers: for the line that it logs, for the response, and
for the reply that it sends. -/
namespace AnonSecNet.Tor
open Octets Buffers

/-- The precision of the payload in the logged line. -/
def sgLogPrecision : Nat := 64

/-- The characters of the text that `snprintf` has room for. -/
def sgFormatted (payload : List UInt8) : List UInt8 :=
  (sgEchoText payload).take (torCellPayload - 1)

/-- `stale` is what the stack holds behind the bytes received. The reply announces what was
formatted, and nothing is read behind the payload or the response. -/
structure EchoInBounds (payload stale : List UInt8) : Prop where
  logged : looked sgLogPrecision (payload ++ stale) ≤ payload.length
  echoed : looked payload.length (payload ++ stale) ≤ payload.length
  sent : ∃ reply, sgEcho payload = .ok reply ∧
    valueList (reply.take 2) = (sgFormatted payload).length

variable {payload : List UInt8}

/-- The copy of a text that is longer than the buffer reads behind it. -/
theorem sgEcho_beyond (h : torCellPayload < (sgEchoText payload).length) :
    sgEcho payload = .error .read := by
  rw [sgEcho_copies]
  apply memcpy_beyond (Int.natCast_nonneg _)
  rw [length_sgResponse, zero_add]
  exact_mod_cast h

/-- The reply announces the length that the text would have. -/
theorem sgEcho_announces {reply : List UInt8} (h : sgEcho payload = .ok reply) :
    (sgEchoText payload).length ≤ torCellPayload ∧
      valueList (reply.take 2) = (sgEchoText payload).length := by
  by_cases hfits : (sgEchoText payload).length ≤ torCellPayload
  · rw [sgEcho_fits hfits] at h
    obtain rfl := Except.ok.inj h
    refine ⟨hfits, ?_⟩
    rw [List.take_left' (length_bigEndianList 2 _), valueList_two (hfits.trans_lt (by decide))]
  · rw [sgEcho_beyond (Nat.lt_of_not_le hfits)] at h
    cases h

/-- The terminating byte of `snprintf` needs room too. -/
theorem announced_iff :
    (∃ reply, sgEcho payload = .ok reply ∧
        valueList (reply.take 2) = (sgFormatted payload).length) ↔
      (payload.takeWhile (· ≠ 0)).length < torCellPayload - sgEchoPrefix.length := by
  have htext : (sgEchoText payload).length = 9 + (payload.takeWhile (· ≠ 0)).length := by
    unfold sgEchoText
    rw [List.length_append, length_sgEchoPrefix]
  have hformatted : (sgFormatted payload).length = min 1023 (sgEchoText payload).length := by
    unfold sgFormatted
    exact List.length_take
  have hroom : torCellPayload - sgEchoPrefix.length = 1015 := by decide
  rw [hroom, hformatted]
  constructor
  · rintro ⟨reply, hreply, hlength⟩
    obtain ⟨-, hannounced⟩ := sgEcho_announces hreply
    omega
  · intro hshort
    have hfits : (sgEchoText payload).length ≤ torCellPayload :=
      (show _ ≤ 1023 by omega).trans (by decide)
    refine ⟨_, sgEcho_fits hfits, ?_⟩
    rw [(sgEcho_announces (sgEcho_fits hfits)).2]
    omega

/-- The gateway keeps to its buffers exactly if the payload ends the logged string, by its length
or by a zero byte, and the text leaves room for the terminating byte of the response. -/
theorem echo_in_bounds_iff (payload stale : List UInt8) :
    EchoInBounds payload stale ↔
      (sgLogPrecision ≤ payload.length ∨ 0 ∈ payload) ∧
        (payload.takeWhile (· ≠ 0)).length < torCellPayload - sgEchoPrefix.length := by
  have hlogged := looked_le_iff sgLogPrecision payload stale
  constructor
  · intro h
    exact ⟨hlogged.mp h.logged, announced_iff.mp h.sent⟩
  · rintro ⟨hends, hshort⟩
    exact ⟨hlogged.mpr hends, (looked_le_iff _ _ _).mpr (.inl (Nat.le_refl _)),
      announced_iff.mpr hshort⟩

/-- 1016 letters: `snprintf` returns 1025, of which 1023 characters are in the response. -/
theorem long_payload_overreads :
    sgReceive (torModeData :: bigEndianList 2 1016 ++ List.replicate 1016 97)
        = some (List.replicate 1016 97) ∧
      handleSgConn (torModeData :: bigEndianList 2 1016 ++ List.replicate 1016 97)
        = .error .read ∧
      (sgEchoText (List.replicate 1016 97)).length = 1025 ∧
      (sgFormatted (List.replicate 1016 97)).length = 1023 ∧
      ∀ stale, ¬ EchoInBounds (List.replicate 1016 97) stale := by
  have hlength : (List.replicate 1016 (97 : UInt8)).length = 1016 := List.length_replicate
  have hshown : (List.replicate 1016 (97 : UInt8)).takeWhile (· ≠ 0) = List.replicate 1016 97 := by
    refine List.takeWhile_eq_self_iff.mpr fun b hb => ?_
    rw [List.eq_of_mem_replicate hb]
    rfl
  have htext : (sgEchoText (List.replicate 1016 97)).length = 1025 := by
    unfold sgEchoText
    rw [hshown, List.length_append, hlength, length_sgEchoPrefix]
  have hreceive : sgReceive (torModeData :: bigEndianList 2 1016 ++ List.replicate 1016 97)
      = some (List.replicate 1016 97) := by
    have hfits : (List.replicate 1016 (97 : UInt8)).length ≤ torCellPayload := by
      rw [hlength]
      decide
    have h := sgReceive_request hfits
    rwa [hlength] at h
  have hbeyond : sgEcho (List.replicate 1016 97) = .error .read :=
    sgEcho_beyond (by rw [htext]; decide)
  refine ⟨hreceive, ?_, htext, ?_, fun stale h => ?_⟩
  · unfold handleSgConn
    rw [hreceive]
    exact hbeyond
  · unfold sgFormatted
    rw [List.length_take, htext]
    decide
  · obtain ⟨reply, hreply, -⟩ := h.sent
    rw [hbeyond] at hreply
    cases hreply

end AnonSecNet.Tor
