import AnonSecNet.Foundation.Fifo
import AnonSecNet.Foundation.Machine
import AnonSecNet.Net

/-! Padded frames over one connection: the transfer loops of `net.c`, in which `send` takes and
`recv` returns any number of bytes. -/
namespace AnonSecNet.Net
open Octets

/-- What goes onto the connection as one frame: a payload that was sent as such, or any other
`WIRE_PACKET_SIZE` bytes of a peer. -/
inductive WireFrame where
  | padded (payload : List UInt8) (pad : WirePacket)
      (fits : payload.length ≤ wirePacketSize - paddedFrameLenBytes)
  | raw (bytes : WirePacket)

theorem netSendPaddedFrame_isSome {payload : List UInt8} (pad : WirePacket)
    (fits : payload.length ≤ wirePacketSize - paddedFrameLenBytes) :
    (netSendPaddedFrame payload pad).isSome := by
  unfold netSendPaddedFrame
  rw [dif_neg (Nat.not_lt.mpr fits)]
  rfl

def WireFrame.bytes : WireFrame → WirePacket
  | padded payload pad fits => (netSendPaddedFrame payload pad).get
      (netSendPaddedFrame_isSome pad fits)
  | raw bytes => bytes

/-- A call of `net_recv_padded_frame`: the caller's buffer and `*out_len` before it. -/
structure RecvCall where
  maxLen : Nat
  payload : List UInt8
  outLen : Nat
  room : maxLen ≤ payload.length

/-- The value it returns, and the buffer and `*out_len` behind it. -/
structure RecvResult where
  ok : Bool
  payload : List UInt8
  outLen : Nat
deriving DecidableEq

/-- The rest of the call once the frame is there. -/
def RecvCall.finish (call : RecvCall) (frame : WirePacket) : RecvResult :=
  match netRecvPaddedFrame frame call.maxLen with
  | none => ⟨false, call.payload, call.outLen⟩
  | some payload => ⟨true, payload ++ call.payload.drop payload.length, payload.length⟩

/-- Both ends of the connection: what the running `net_send_all` has left of its buffer and the
frames of the calls after it, the bytes of the running `net_recv_all`, and its calls. -/
structure Connection where
  unsent : List UInt8
  frames : List WirePacket
  line : Fifo UInt8
  buf : List UInt8
  calls : List RecvCall
  results : List RecvResult

/-- One `send` or `recv`, and how much the kernel would move beyond a first byte. -/
inductive Transfer where
  | send (more : Nat)
  | recv (more : Nat)

/-- One round of the loop of `net_send_all`; a finished call is followed by the next. -/
def Connection.send (c : Connection) (more : Nat) : Connection :=
  match c.unsent, c.frames with
  | [], [] => c
  | [], frame :: frames => { c with unsent := frame.toList, frames := frames }
  | unsent, _ => { c with
      line := c.line.send (unsent.take (more + 1)), unsent := unsent.drop (more + 1) }

/-- One round of the loop of `net_recv_all`, which waits while nothing has arrived. -/
def Connection.recv (c : Connection) (more : Nat) : Connection :=
  match c.calls with
  | [] => c
  | call :: calls =>
    let n := min (more + 1) (min (wirePacketSize - c.buf.length) c.line.pending.length)
    match c.line.recv n with
    | none => c
    | some (bytes, line) =>
      let buf := c.buf ++ bytes
      if buf.length < wirePacketSize then { c with line := line, buf := buf }
      else { c with
        line := line, buf := [], calls := calls
        results := c.results ++ [call.finish (Bytes.fit wirePacketSize buf)] }

def Connection.step (c : Connection) : Transfer → Connection
  | .send more => c.send more
  | .recv more => c.recv more

def Connection.start (exchange : List (WireFrame × RecvCall)) : Connection :=
  ⟨[], exchange.map fun x => x.1.bytes, Fifo.empty, [], exchange.map Prod.snd, []⟩

/-- Everything was sent and has arrived. -/
def Connection.AtRest (c : Connection) : Prop :=
  c.unsent = [] ∧ c.frames = [] ∧ c.line.pending = []

/-- What each call should return. -/
def expected (exchange : List (WireFrame × RecvCall)) : List RecvResult :=
  exchange.map fun x => x.2.finish x.1.bytes

/-- What is to come on the connection, counting what is not sent yet twice. -/
def Connection.left (c : Connection) : Nat :=
  2 * (c.unsent.length + (wirePacketSize + 1) * c.frames.length) + c.line.pending.length

/-! One call. -/

theorem finish_padded (call : RecvCall) {payload : List UInt8} (pad : WirePacket)
    (fits : payload.length ≤ wirePacketSize - paddedFrameLenBytes)
    (hlen : payload.length ≤ call.maxLen) :
    call.finish (WireFrame.padded payload pad fits).bytes
      = ⟨true, payload ++ call.payload.drop payload.length, payload.length⟩ := by
  have hframe : netSendPaddedFrame payload pad
      = some (WireFrame.padded payload pad fits).bytes := (Option.some_get _).symm
  unfold RecvCall.finish
  rw [netRecvPaddedFrame_sent hframe hlen]

theorem finish_rejected (call : RecvCall) {frame : WirePacket}
    (hlen : call.maxLen < (frame.read 0 2).value ∨
      wirePacketSize - paddedFrameLenBytes < (frame.read 0 2).value) :
    call.finish frame = ⟨false, call.payload, call.outLen⟩ := by
  unfold RecvCall.finish netRecvPaddedFrame
  rw [if_pos hlen]

/-! The loops. -/

/-- The calls `done` have returned, and the running one has read the front of the next frame. -/
structure Connection.Between (c : Connection) (exchange done rest : List (WireFrame × RecvCall)) :
    Prop where
  split : exchange = done ++ rest
  calls : c.calls = rest.map Prod.snd
  results : c.results = expected done
  got : c.line.got = (done.flatMap fun x => x.1.bytes.toList) ++ c.buf
  buf : c.buf.length < wirePacketSize
  stream : c.line.sent ++ c.unsent ++ (c.frames.flatMap Bytes.toList)
    = exchange.flatMap fun x => x.1.bytes.toList

section
variable {c : Connection} {exchange done rest : List (WireFrame × RecvCall)}

theorem start_between : (Connection.start exchange).Between exchange [] exchange where
  split := rfl
  calls := rfl
  results := rfl
  got := rfl
  buf := (by decide : 0 < wirePacketSize)
  stream := by simp [Connection.start, Fifo.sent, Fifo.empty, List.flatMap_map]

theorem Connection.Between.send (h : c.Between exchange done rest) (more : Nat) :
    (c.send more).Between exchange done rest := by
  have hstream := h.stream
  unfold Connection.send
  split
  · exact h
  · rename_i frame frames hunsent hframes
    refine ⟨h.split, h.calls, h.results, h.got, h.buf, ?_⟩
    rw [hunsent, hframes] at hstream
    simpa using hstream
  · refine ⟨h.split, h.calls, h.results, h.got, h.buf, ?_⟩
    dsimp only
    rw [Fifo.sent_send, List.append_assoc c.line.sent, List.take_append_drop]
    exact hstream

/-- What is still to be read of the frames. -/
theorem Connection.Between.ahead (h : c.Between exchange done rest) :
    c.buf ++ c.line.pending ++ (c.unsent ++ c.frames.flatMap Bytes.toList)
      = rest.flatMap fun x => x.1.bytes.toList := by
  have hstream := h.stream
  rw [h.split, List.flatMap_append, List.append_assoc c.line.sent] at hstream
  exact Fifo.rest_of_got h.got hstream

theorem Connection.Between.recv (h : c.Between exchange done rest) (more : Nat) :
    ∃ done rest, (c.recv more).Between exchange done rest := by
  unfold Connection.recv
  split
  · exact ⟨done, rest, h⟩
  · rename_i call calls hcalls
    have hn : min (more + 1) (min (wirePacketSize - c.buf.length) c.line.pending.length)
        ≤ wirePacketSize - c.buf.length := (Nat.min_le_right _ _).trans (Nat.min_le_left _ _)
    dsimp only
    generalize min (more + 1) (min (wirePacketSize - c.buf.length) c.line.pending.length) = n at hn
    cases hrecv : c.line.recv n with
    | none => exact ⟨done, rest, h⟩
    | some taken =>
      obtain ⟨bytes, line⟩ := taken
      obtain ⟨hlen, hgot, hsent⟩ := Fifo.recv_cases hrecv
      rw [h.got, List.append_assoc] at hgot
      have hstream : line.sent ++ c.unsent ++ (c.frames.flatMap Bytes.toList)
          = exchange.flatMap fun x => x.1.bytes.toList := by
        rw [hsent]
        exact h.stream
      dsimp only
      by_cases hshort : (c.buf ++ bytes).length < wirePacketSize
      · rw [if_pos hshort]
        exact ⟨done, rest, h.split, h.calls, h.results, hgot, hshort, hstream⟩
      · rw [if_neg hshort]
        have hsize : (c.buf ++ bytes).length = wirePacketSize := by
          have := h.buf
          rw [List.length_append] at hshort ⊢
          omega
        have hrest := h.calls.symm.trans hcalls
        cases rest with
        | nil => cases hrest
        | cons x rest =>
          obtain ⟨hcall, htail⟩ := List.cons.inj hrest
          -- the buffer is the next frame
          have hframe : c.buf ++ bytes = x.1.bytes.toList := by
            have hrest := hstream
            rw [h.split, List.flatMap_append, List.append_assoc line.sent] at hrest
            have hahead := Fifo.rest_of_got hgot hrest
            rw [List.flatMap_cons, List.append_assoc] at hahead
            exact (List.append_inj hahead (by rw [hsize, Bytes.length_eq])).1
          refine ⟨done ++ [x], rest, by simp [h.split], htail.symm, ?_, ?_, ?_, hstream⟩
          · have hfit : Bytes.fit wirePacketSize (c.buf ++ bytes) = x.1.bytes := by
              rw [hframe, ← List.append_nil x.1.bytes.toList, Bytes.fit_append]
            unfold expected
            rw [h.results, hfit, ← hcall, List.map_append]
            rfl
          · rw [List.flatMap_append]
            simp [hgot, hframe]
          · exact (by decide : 0 < wirePacketSize)

theorem Connection.Between.run (h : c.Between exchange done rest) (ts : List Transfer) :
    ∃ done rest, (Machine.run Connection.step ts c).Between exchange done rest := by
  have hstep : ∀ (c : Connection) (t : Transfer),
      (∃ done rest, c.Between exchange done rest) →
        ∃ done rest, (c.step t).Between exchange done rest := by
    rintro c t ⟨done, rest, h⟩
    cases t with
    | send more => exact ⟨done, rest, h.send more⟩
    | recv more => exact h.recv more
  exact Machine.run_keeps _ _ hstep ts ⟨done, rest, h⟩

/-- As long as something is to come, one of the two sides can move. -/
theorem Connection.Between.progress (h : c.Between exchange done rest) (hrest : ¬ c.AtRest) :
    ∃ t, (c.step t).left < c.left := by
  by_cases hunsent : c.unsent = []
  · by_cases hframes : c.frames = []
    · have hpending : c.line.pending ≠ [] := fun hp => hrest ⟨hunsent, hframes, hp⟩
      have hahead := h.ahead
      rw [hunsent, hframes] at hahead
      obtain ⟨call, calls, hcalls⟩ : ∃ call calls, c.calls = call :: calls := by
        cases rest with
        | nil => simp_all
        | cons x rest => exact ⟨x.2, rest.map Prod.snd, h.calls⟩
      have hpos := List.length_pos_iff.mpr hpending
      have hn : min 1 (min (wirePacketSize - c.buf.length) c.line.pending.length) = 1 := by
        have := h.buf
        omega
      refine ⟨.recv 0, ?_⟩
      have hrecv : c.line.recv 1
          = some (c.line.pending.take 1, ⟨c.line.got ++ c.line.pending.take 1,
              c.line.pending.drop 1⟩) := if_pos hpos
      unfold Connection.step Connection.recv
      rw [hcalls]
      simp only [Nat.zero_add, hn, hrecv]
      unfold Connection.left
      split
      · simp
        omega
      · simp
        omega
    · obtain ⟨frame, frames, hcons⟩ := List.exists_cons_of_ne_nil hframes
      refine ⟨.send 0, ?_⟩
      unfold Connection.step Connection.send Connection.left
      simp only [hunsent, hcons, Bytes.length_eq, List.length_cons, List.length_nil, Nat.mul_succ]
      omega
  · obtain ⟨byte, unsent, hcons⟩ := List.exists_cons_of_ne_nil hunsent
    refine ⟨.send 0, ?_⟩
    unfold Connection.step Connection.send Connection.left
    simp only [hcons, Fifo.send]
    simp
    omega

theorem Connection.Between.comes_to_rest (h : c.Between exchange done rest) :
    ∃ ts, (Machine.run Connection.step ts c).AtRest := by
  induction hleft : c.left using Nat.strong_induction_on generalizing c done rest with
  | _ left ih =>
    by_cases hrest : c.AtRest
    · exact ⟨[], hrest⟩
    · obtain ⟨t, ht⟩ := h.progress hrest
      obtain ⟨done', rest', h'⟩ := h.run [t]
      obtain ⟨ts, hts⟩ := ih _ (hleft ▸ ht) h' rfl
      exact ⟨t :: ts, hts⟩

/-- However the two loops are served, the calls return in order what their own frames make them
return, and nothing keeps the exchange from coming to an end. A payload that fits its call comes
back as it was sent; a frame with too high a length leaves the buffer as it was. -/
theorem padded_frames_round_trip (exchange : List (WireFrame × RecvCall)) (ts : List Transfer) :
    (Machine.run Connection.step ts (Connection.start exchange)).results <+: expected exchange ∧
      ((Machine.run Connection.step ts (Connection.start exchange)).AtRest →
        (Machine.run Connection.step ts (Connection.start exchange)).line.sent
            = (exchange.flatMap fun x => x.1.bytes.toList) ∧
          (Machine.run Connection.step ts (Connection.start exchange)).results
            = expected exchange) ∧
      (∃ ts', (Machine.run Connection.step (ts ++ ts') (Connection.start exchange)).AtRest) ∧
      ∀ x ∈ exchange, x.1.bytes.toList.length = wirePacketSize ∧
        (∀ payload pad fits, x.1 = .padded payload pad fits → payload.length ≤ x.2.maxLen →
          x.2.finish x.1.bytes
            = ⟨true, payload ++ x.2.payload.drop payload.length, payload.length⟩) ∧
        (x.2.maxLen < (x.1.bytes.read 0 2).value ∨
            wirePacketSize - paddedFrameLenBytes < (x.1.bytes.read 0 2).value →
          x.2.finish x.1.bytes = ⟨false, x.2.payload, x.2.outLen⟩) := by
  have hstart : (Connection.start exchange).Between exchange [] exchange := start_between
  obtain ⟨done, rest, h⟩ := hstart.run ts
  have hresults := h.results
  refine ⟨?_, fun hrest => ?_, ?_, fun x _ => ⟨x.1.bytes.length_eq, ?_, ?_⟩⟩
  · rw [hresults, h.split]
    unfold expected
    rw [List.map_append]
    exact List.prefix_append _ _
  · -- less than a frame is left in the buffer, so there are no frames left
    obtain ⟨hunsent, hframes, hpending⟩ := hrest
    have hahead := h.ahead
    have hbuf := h.buf
    have hstream := h.stream
    rw [hunsent, hframes, hpending] at hahead
    rw [hunsent, hframes, List.append_nil, List.flatMap_nil, List.append_nil] at hstream
    refine ⟨hstream, ?_⟩
    cases rest with
    | nil => rw [hresults, h.split, List.append_nil]
    | cons x rest =>
      have hlen := congrArg List.length hahead
      simp at hlen hbuf
      omega
  · obtain ⟨ts', hts'⟩ := h.comes_to_rest
    rw [← Machine.run_append] at hts'
    exact ⟨ts', hts'⟩
  · intro payload pad fits hx hlen
    rw [hx]
    exact finish_padded x.2 pad fits hlen
  · exact finish_rejected x.2

end
end AnonSecNet.Net
