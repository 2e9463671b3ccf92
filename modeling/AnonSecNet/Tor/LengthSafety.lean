import AnonSecNet.Tor.MixNode

/-! The lengths that `handle_data` computes from the cells it accepts. -/
namespace AnonSecNet.Tor
open Octets Buffers
variable (P : Primitives) (w : World) (sessions : List TorSession)

/-- The plaintext is for the gateway, or for a port that takes no connection, or it has room for
the hint of the next hop. -/
def HintFits (plaintext : List UInt8) : Prop :=
  nextPortOf plaintext = torPortSg ∨ nextPortOf plaintext = 0 ∨
    w.connects (nextPortOf plaintext) = false ∨ 2 + torHintBytes ≤ plaintext.length

theorem malloc_nat (n : Nat) : ∃ buf, malloc n = .ok buf := ⟨_, malloc_eq rfl⟩

theorem readCell_ok (input : List UInt8) :
    ∃ r, readCell P sessions input = .ok r ∧
      ∀ sess plaintext, r = some (sess, plaintext) → 2 ≤ plaintext.length := by
  have hnone : ∃ r : Option (TorSession × List UInt8), (.ok none : Except Fault _) = .ok r ∧
      ∀ sess plaintext, r = some (sess, plaintext) → 2 ≤ plaintext.length :=
    ⟨none, rfl, fun _ _ h => by cases h⟩
  unfold readCell
  split
  · exact hnone
  · split
    · exact hnone
    · split
      · exact hnone
      · rename_i clenBytes _ _
        dsimp only
        split
        · exact hnone
        · obtain ⟨buf, hbuf⟩ := malloc_nat (valueList clenBytes)
          rw [hbuf, ok_bind]
          split
          · exact hnone
          · rw [ok_bind]
            split
            · exact hnone
            · split
              · exact hnone
              · rename_i sess _ _ _ plaintext _ hlong
                refine ⟨_, rfl, fun sess' plaintext' h => ?_⟩
                cases h
                omega

theorem exitBranch_ok (sess : TorSession) (nonce : Bytes gcmNonceLen) {plaintext : List UInt8}
    (h : 2 ≤ plaintext.length) : ∃ sends, exitBranch P w sess nonce plaintext = .ok sends := by
  unfold exitBranch
  split
  · rw [buildGatewayRequest_eq h, ok_bind]
    split
    · exact ⟨_, rfl⟩
    · rename_i rlenBytes reply _
      dsimp only
      split
      · exact ⟨_, rfl⟩
      · obtain ⟨buf, hbuf⟩ := malloc_nat (valueList rlenBytes)
        rw [hbuf, ok_bind]
        split
        · exact ⟨_, rfl⟩
        · rename_i respData _ _
          obtain ⟨enc, -, hsend⟩ := sendResponse_eq P w sess nonce respData torPortTn2
          rw [hsend]
          exact ⟨_, rfl⟩
  · exact ⟨_, rfl⟩

/-- The copy of the hint needs 16 bytes behind the port. -/
theorem forwardBranch_ok_iff {nextPort : Nat} {plaintext : List UInt8}
    (h : 2 ≤ plaintext.length) :
    (∃ sends, forwardBranch w nextPort plaintext = .ok sends) ↔
      w.connects nextPort = false ∨ 2 + torHintBytes ≤ plaintext.length := by
  unfold forwardBranch
  cases hconnects : w.connects nextPort with
  | false => exact iff_of_true ⟨[], rfl⟩ (.inl rfl)
  | true =>
    rw [if_pos rfl]
    dsimp only
    by_cases hlong : 2 + torHintBytes ≤ plaintext.length
    · obtain ⟨len, hlen⟩ := Nat.exists_eq_add_of_le hlong
      have hgcm : (plaintext.length : Int) - 2 - torHintBytes = len := by omega
      have hcell : buildCell torModeData plaintext (2 : Nat) plaintext (2 + torHintBytes : Nat) len
          = _ := buildCell_eq torModeData hlong hlen.ge
      rw [hgcm]
      change (∃ sends, (buildCell _ _ (2 : Nat) _ (2 + torHintBytes : Nat) _ >>= _) = _) ↔ _
      rw [hcell]
      exact iff_of_true ⟨_, rfl⟩ (.inr hlong)
    · -- The buffer is shorter than its header, but not empty, so the copy is the first to fail.
      obtain ⟨len, hlen⟩ := Nat.exists_eq_add_of_le h
      have hsize : (1 : Int) + torHintBytes + 2 + (plaintext.length - 2 - torHintBytes)
          = (3 + len : Nat) := by
        simp only [torHintBytes]
        omega
      have hcell : buildCell torModeData plaintext 2 plaintext (2 + torHintBytes)
          (plaintext.length - 2 - torHintBytes) = .error .read := by
        unfold buildCell
        rw [hsize, malloc_eq rfl, ok_bind, store_next (by simp) (by simp), ok_bind,
          memcpy_beyond (by simp) (by simp only [torHintBytes] at hlong ⊢; omega)]
        rfl
      rw [hcell]
      refine iff_of_false ?_ fun hor => ?_
      · rintro ⟨sends, hsends⟩
        cases hsends
      · obtain hor | hor := hor
        · cases hor
        · exact hlong hor

/-- All allocations and copies of `handle_data` stay within their buffers exactly if a cell for
another relay, when it is accepted, has room for the hint that is copied out of it. -/
theorem handle_data_in_bounds_iff (nonce : Bytes gcmNonceLen) (input : List UInt8) :
    (∃ sends, handleData P w sessions nonce input = .ok sends) ↔
      ∀ sess plaintext, readCell P sessions input = .ok (some (sess, plaintext)) →
        HintFits w plaintext := by
  obtain ⟨r, hr, hlong⟩ := readCell_ok P sessions input
  unfold handleData
  rw [hr, ok_bind]
  cases r with
  | none => exact iff_of_true ⟨_, rfl⟩ fun _ _ h => by cases h
  | some cell =>
    obtain ⟨sess, plaintext⟩ := cell
    have htwo := hlong sess plaintext rfl
    have hcell : (∀ sess' plaintext', (.ok (some (sess, plaintext)) : Except Fault _)
        = .ok (some (sess', plaintext')) → HintFits w plaintext') ↔ HintFits w plaintext :=
      ⟨fun h => h sess plaintext rfl, fun h _ _ heq => by cases heq; exact h⟩
    rw [hcell]
    dsimp only
    unfold HintFits
    by_cases hexit : nextPortOf plaintext = torPortSg ∨ nextPortOf plaintext = 0
    · rw [if_pos hexit]
      refine iff_of_true (exitBranch_ok P w sess nonce htwo) ?_
      exact hexit.elim .inl fun h => .inr (.inl h)
    · rw [if_neg hexit, forwardBranch_ok_iff w htwo]
      obtain ⟨hsg, hzero⟩ := not_or.mp hexit
      exact ⟨fun h => .inr (.inr h), fun h => (h.resolve_left hsg).resolve_left hzero⟩

/-- A cell of 30 bytes, encrypted under the key of the session, whose plaintext is no more than
the port of the next relay. -/
theorem bare_port_overruns :
    handleData .sample ⟨fun _ => true, id⟩ [⟨Bytes.zero 16, Bytes.zero 32, true⟩] (Bytes.zero 12)
        (List.replicate 16 0 ++ [0, 30] ++ List.replicate 12 0 ++ [0x23, 0x51]
          ++ List.replicate 16 0)
      = .error .read ∧
    readCell .sample [⟨Bytes.zero 16, Bytes.zero 32, true⟩]
        (List.replicate 16 0 ++ [0, 30] ++ List.replicate 12 0 ++ [0x23, 0x51]
          ++ List.replicate 16 0)
      = .ok (some (⟨Bytes.zero 16, Bytes.zero 32, true⟩, [0x23, 0x51])) := by
  decide +kernel

end AnonSecNet.Tor
