import AnonSecNet.Foundation.OrderedStream
import AnonSecNet.MixNode.ForwardOnce

/-! The packets of one session on their way over the relays of a path, when links lose packets
but keep their order: how far each counter domain gets, and where decoys end. -/
namespace AnonSecNet.MixNode
open Octets ReplayGuard
variable (P : Primitives)

/-- What a client sends over a path, one packet for each value of its two counters. `drop` is the
hop at which a decoy ends and -1 for other packets; `pad` is what the relays fill it up with. -/
structure PathPackets where
  payload : Domain × Nat → List UInt8
  flags : Domain × Nat → UInt8
  drop : Domain × Nat → Int
  rnd : Domain × Nat → SphinxRandom
  pad : Domain × Nat → Fin nPathHops → WirePacket
  payload_le : ∀ x, (payload x).length ≤ maxInnerPayload
  drop_range : ∀ x, -1 ≤ drop x ∧ drop x < nPathHops
  fresh : ∀ i x y, FromClient x → FromClient y → (rnd x).hopNonce i = (rnd y).hopNonce i → x = y

variable (path : SphinxPath) (pk : PathPackets)

def PathPackets.build (x : Domain × Nat) : Option WirePacket :=
  packetSphinxBuildEx P path (pk.payload x) (pk.flags x) x.2 (pk.drop x) (pk.rnd x)

/-- The packet as it comes to hop `k`; the gateway is hop 3. -/
def PathPackets.packet (k : Nat) (x : Domain × Nat) : WirePacket :=
  ((pk.build P path x).bind fun pkt => packetAtHop P path (pk.pad x) pkt k).getD (Bytes.zero _)

/-- What the relay of hop `i` sends of the packets that come to it, each with the time. -/
def PathPackets.relay (hopDecoy : Bool) (i : Fin nPathHops) :
    List ((Domain × Nat) × Nat) → Table → List (UInt16 × WirePacket)
  | [], _ => []
  | (x, now) :: as, t =>
    let r := handleData P hopDecoy t (pk.packet P path i x) now (pk.pad x i)
    r.1.toList ++ PathPackets.relay hopDecoy i as r.2

/-- The stamps of a stream that a relay peels and does not take for replays. -/
def taken (xs : List (Domain × Nat)) : List (Domain × Nat) := passes sessionGuard xs .initial

/-- The packet is a decoy that a relay of the decoy build takes in at this hop. -/
def PathPackets.endsAt (hopDecoy : Bool) (i : Fin nPathHops) (x : Domain × Nat) : Bool :=
  hopDecoy && decide (pk.drop x = i)

/-- Those it sends on. -/
def PathPackets.sentOn (hopDecoy : Bool) (i : Fin nPathHops) (xs : List (Domain × Nat)) :
    List (Domain × Nat) :=
  (taken xs).filter fun x => !pk.endsAt hopDecoy i x

variable {P path}

/-! The packets on their way. -/

variable (P path) in
theorem PathPackets.carries (x : Domain × Nat) {k : Nat} (hk : k ≤ nPathHops) :
    ∃ pkt sect, pk.build P path x = some pkt ∧
      packetAtHop P path (pk.pad x) pkt k = some (pk.packet P path k x) ∧
      e2eSection P path (pk.payload x) (pk.flags x) (pk.rnd x).gcmNonce = some sect ∧
      Carries P path x.2 (pk.drop x) (pk.rnd x) sect ((List.finRange nPathHops).drop k)
        (pk.packet P path k x) := by
  obtain ⟨sect, -, hsect, -⟩ :=
    e2eSection_fields P path (pk.payload x) (pk.flags x) (pk.rnd x).gcmNonce (pk.payload_le x)
  obtain ⟨pkt, hbuild, hcar⟩ := carries_build P x.2 path (pk.payload x) (pk.flags x) (pk.drop x)
    (pk.rnd x) sect (pk.drop_range x) (pk.payload_le x) hsect
  have hat : ∀ k ≤ nPathHops, ∃ p, packetAtHop P path (pk.pad x) pkt k = some p := by
    intro k
    induction k with
    | zero => exact fun _ => ⟨pkt, rfl⟩
    | succ k ih =>
      intro hk
      obtain ⟨p, hp⟩ := ih (Nat.le_of_succ_le hk)
      have hcark := carries_atHop P path x.2 (pk.drop x) (pk.rnd x) hcar hp
      rw [drop_finRange hk] at hcark
      obtain ⟨out, hpeel, -⟩ := hcark.peel P x.2 path (pk.drop x) (pk.rnd x) sect
        (by simp at hk ⊢; omega) (pk.pad x ⟨k, hk⟩)
      refine ⟨out, ?_⟩
      rw [packetAtHop, hp, Option.bind_some, dif_pos (show k < nPathHops from hk), hpeel]
      rfl
  obtain ⟨p, hp⟩ := hat k hk
  have hbuilt : pk.build P path x = some pkt := hbuild
  have hpacket : pk.packet P path k x = p := by
    rw [PathPackets.packet, hbuilt, Option.bind_some, hp]
    rfl
  rw [hpacket]
  exact ⟨pkt, sect, hbuilt, hp, hsect, carries_atHop P path x.2 (pk.drop x) (pk.rnd x) hcar hp⟩

variable (P path) in
/-- Peeling a packet gives the one for the next hop. -/
theorem PathPackets.peels (x : Domain × Nat) (i : Fin nPathHops) :
    packetSphinxPeel P (pk.packet P path i x) (path.hops i).headerEncKey
        (path.hops i).headerMacKey (pk.pad x i)
      = some (pathHopInfo path (pk.drop x) (pk.rnd x) i, pk.packet P path (i + 1) x) := by
  obtain ⟨pkt, sect, hbuild, hat, -, hcar⟩ := pk.carries P path x i.isLt.le
  rw [drop_finRange i.isLt] at hcar
  obtain ⟨out, hpeel, -⟩ := hcar.peel P x.2 path (pk.drop x) (pk.rnd x) sect
    (by simp; omega) (pk.pad x i)
  have hnext : pk.packet P path (i + 1) x = out := by
    rw [PathPackets.packet, hbuild, Option.bind_some, packetAtHop, hat, Option.bind_some,
      dif_pos i.isLt]
    rw [hpeel]
    rfl
  rw [hpeel, hnext]

theorem PathPackets.unwraps (x : Domain × Nat) :
    packetSphinxUnwrap P (pk.packet P path nPathHops x) path.e2eKey
      = some (pk.payload x, pk.flags x) := by
  obtain ⟨-, sect, -, -, hsect, hcar⟩ :=
    pk.carries P path x (le_refl nPathHops)
  exact packetSphinxUnwrap_section P (pk.payload_le x) hsect hcar.2

variable (P path) in
/-- The packets of one hop. -/
def PathPackets.atHop (i : Fin nPathHops) : ClientPackets P path i where
  packet := pk.packet P path i
  nonce x := (pk.rnd x).hopNonce i
  built x _ := by
    obtain ⟨pkt, -, hbuild, hat, -⟩ := pk.carries P path x i.isLt.le
    exact ⟨_, _, _, _, _, pkt, hbuild, hat, rfl⟩
  fresh := pk.fresh i

/-! One relay. -/

theorem hopFlagOf_eq_drop (dropAtHop : Int) (i : Fin nPathHops) :
    hopFlagOf dropAtHop i = hopDropMarker ↔ dropAtHop = i := by
  unfold hopFlagOf
  by_cases h : (i.val : Int) = dropAtHop
  · simp [h]
  · rw [if_neg h]
    exact iff_of_false (by decide) (Ne.symm h)

section
variable {master : AesKey} {j : Fin maxSessions} {i : Fin nPathHops} {t : Table}
  {g : Guard Domain} {pk}

/-- `handle_data` sends a packet on if the guard accepts it and it is no decoy that ends here. -/
theorem Simulates.sends (sim : Simulates master j (pk.atHop P path i) t g)
    (hideal : HintsDistinct P fun m => m = master) (hhop : path.hops i = deriveHop P master)
    (hallowed : isAllowedNextHop localhostBytes (nextHopPort path i)) {x : Domain × Nat}
    (hx : FromClient x) (hopDecoy : Bool) (now : Nat) :
    (handleData P hopDecoy t (pk.packet P path i x) now (pk.pad x i)).1
      = if g.Accepts sessionGuard x ∧ pk.endsAt hopDecoy i x = false then
          some (nextHopPort path i, pk.packet P path (i + 1) x)
        else none := by
  obtain ⟨hhint, -⟩ := (pk.atHop P path i).peels P hx
  have hseed : (path.hops i).hintSeed = packetDeriveHintSeed P master := by
    rw [hhop]
    rfl
  rw [hseed] at hhint
  change outerHint (pk.packet P path i x) = _ at hhint
  by_cases hin : g.InWindow sessionGuard x
  · obtain ⟨f, hf, hj, hd, hc, hkeys, hgen⟩ := sim.found hideal hx hin
    have hfind : sessionFind t (outerHint (pk.packet P path i x)) now
        = (some f, Function.update t f.idx { t f.idx with lastActiveMs := now }) := by
      rw [hhint]
      simp only [sessionFind, hf]
    have hall := sim.keys
    have henc : f.keys.headerEncKey = (path.hops i).headerEncKey := by
      rw [hkeys, hhop]
      exact congrArg Prod.fst hall
    have hmac : f.keys.headerMacKey = (path.hops i).headerMacKey := by
      rw [hkeys, hhop]
      exact congrArg (fun k => k.2.1) hall
    have hpeel := pk.peels P path x i
    rw [← henc, ← hmac] at hpeel
    obtain ⟨-, haccepts⟩ := sim.checked now hx hj hd hc hgen hin rfl
    have hflag : (pathHopInfo path (pk.drop x) (pk.rnd x) i).hopFlag = hopDropMarker
        ↔ pk.drop x = i := hopFlagOf_eq_drop (pk.drop x) i
    have hport : (pathHopInfo path (pk.drop x) (pk.rnd x) i).nextPort = nextHopPort path i := rfl
    have hnonce : (pathHopInfo path (pk.drop x) (pk.rnd x) i).nonce
        = (pk.atHop P path i).nonce x := rfl
    simp only [handleData, hfind, hpeel, hflag, hport, hnonce, if_pos hallowed]
    by_cases hacc : g.Accepts sessionGuard x
    · rw [haccepts.mpr hacc]
      by_cases hdecoy : hopDecoy = true ∧ pk.drop x = i
      · simp [PathPackets.endsAt, hdecoy]
      · have hgoes : pk.endsAt hopDecoy i x = false := by
          rw [PathPackets.endsAt, Bool.and_eq_false_iff, decide_eq_false_iff_not]
          exact (not_and_or.mp hdecoy).imp_left Bool.eq_false_of_not_eq_true
        simp [hdecoy, hacc, hgoes]
    · have hreplay := Bool.eq_true_of_not_eq_false fun h => hacc (haccepts.mp h)
      rw [hreplay]
      simp [hacc]
  · have hf := sim.not_found hideal hx hin
    have hno : ¬ g.Accepts sessionGuard x := fun h => hin h.1
    have hfind : sessionFind t (outerHint (pk.packet P path i x)) now = (none, t) := by
      rw [hhint]
      simp only [sessionFind, hf]
    simp [handleData, hfind, hno]

theorem Simulates.relay (sim : Simulates master j (pk.atHop P path i) t g)
    (hideal : HintsDistinct P fun m => m = master) (hhop : path.hops i = deriveHop P master)
    (hallowed : isAllowedNextHop localhostBytes (nextHopPort path i)) (hopDecoy : Bool)
    (as : List ((Domain × Nat) × Nat)) (hclient : ∀ a ∈ as, FromClient a.1) :
    pk.relay P path hopDecoy i as t
      = ((passes sessionGuard (as.map Prod.fst) g).filter fun x =>
          !pk.endsAt hopDecoy i x).map fun x =>
            (nextHopPort path i, pk.packet P path (i + 1) x) := by
  induction as generalizing t g with
  | nil => rfl
  | cons a as ih =>
    obtain ⟨x, now⟩ := a
    have hx : FromClient x := hclient (x, now) List.mem_cons_self
    obtain ⟨hnext, -⟩ := sim.handle hideal hhop hx hopDecoy now (pk.pad x i)
    have hsends := sim.sends hideal hhop hallowed hx hopDecoy now
    have hrest := ih hnext fun b hb => hclient b (List.mem_cons_of_mem _ hb)
    unfold PathPackets.relay
    change _ ++ pk.relay P path hopDecoy i as (handleData P hopDecoy t
      ((pk.atHop P path i).packet x) now (pk.pad x i)).2 = _
    rw [hrest, hsends, List.map_cons, passes, List.filter_append, List.map_append]
    congr 1
    by_cases hacc : g.Accepts sessionGuard x
    · cases hends : pk.endsAt hopDecoy i x <;> simp [hacc, hends]
    · simp [hacc]

end

/-- What a client can send, in the order of the counters of each domain. -/
structure ClientStream (xs : List (Domain × Nat)) : Prop where
  client : ∀ x ∈ xs, FromClient x
  first : ∀ x ∈ xs, x.1.first ≤ x.2
  sorted : ∀ d, (ofDomain d xs).Pairwise (· < ·)

theorem ClientStream.sublist {xs ys : List (Domain × Nat)} (h : ClientStream ys)
    (hsub : xs.Sublist ys) : ClientStream xs where
  client x hx := h.client x (hsub.subset hx)
  first x hx := h.first x (hsub.subset hx)
  sorted d := (h.sorted d).sublist ((hsub.filter _).map _)

/-- No counter is 64 or more above the first one or 33 or more above the one before. -/
def NoLongGap (d : Domain) (cs : List Nat) : Prop :=
  (∀ c ∈ cs.head?, c < d.first + hintWindow) ∧
    cs.IsChain fun a b => b < max (d.first + hintWindow) (a + hintWindow - hintSafetyMargin + 1)

theorem noLongGap_iff (d : Domain) (cs : List Nat) :
    NoLongGap d cs ↔ reach sessionGuard d none cs = cs := by
  have hlimit : ∀ a, limit sessionGuard d (some a)
      = max (d.first + hintWindow) (a + hintWindow - hintSafetyMargin + 1) := by
    intro a
    simp only [limit, sessionGuard, Option.elim_some, hintWindow, hintSafetyMargin]
    omega
  simp only [reach_eq_self_iff, hlimit]
  exact Iff.rfl

theorem ClientStream.inOrder {xs : List (Domain × Nat)} (h : ClientStream xs) :
    InOrder sessionGuard .initial xs where
  sorted := h.sorted
  first := h.first
  above _ _ m hm := by cases hm

theorem taken_sublist (xs : List (Domain × Nat)) : (taken xs).Sublist xs := passes_sublist xs _

theorem ClientStream.taken_eq {xs : List (Domain × Nat)} (h : ClientStream xs) (d : Domain) :
    ofDomain d (taken xs) = reach sessionGuard d none (ofDomain d xs) :=
  ofDomain_passes h.inOrder (ok_initial sessionGuard) d

theorem ClientStream.prefix_taken {xs : List (Domain × Nat)} (h : ClientStream xs) {d : Domain}
    {cs : List Nat} (hcs : cs <+: ofDomain d xs) :
    cs <+: ofDomain d (taken xs) ↔ NoLongGap d cs := by
  rw [h.taken_eq, prefix_reach_iff hcs, noLongGap_iff]

theorem ClientStream.taken_all {xs : List (Domain × Nat)} (h : ClientStream xs) :
    taken xs = xs ↔ ∀ d, NoLongGap d (ofDomain d xs) := by
  simp only [noLongGap_iff, ← h.taken_eq]
  constructor
  · intro heq d
    rw [heq]
  · exact eq_of_ofDomain (taken_sublist xs)

/-- A link may lose packets of the session but keeps their order. Then a relay takes, in each
counter domain, those that come before the first gap of 33 counters, or beyond the first window,
and from there on none, whatever the other domain does; of those it has taken it sends on all but
the decoys that end there. -/
theorem relay_stream {master : AesKey} {j : Fin maxSessions} {i : Fin nPathHops}
    (hideal : HintsDistinct P fun m => m = master) (hhop : path.hops i = deriveHop P master)
    (hallowed : isAllowedNextHop localhostBytes (nextHopPort path i)) {role : UInt8} {start : Nat}
    {t t₀ : Table} (hext : extendSession P t master role start = some (j, t₀))
    (hforeign : ∀ k, k ≠ j → (t₀ k).inUse = true → ∀ d w c, c < 2 ^ 64 →
      (t₀ k).hintWindow d w ≠ packetDeriveHopHint P (packetDeriveHintSeed P master) c)
    (hopDecoy : Bool) (as : List ((Domain × Nat) × Nat))
    (hstream : ClientStream (as.map Prod.fst)) :
    let xs := as.map Prod.fst
    pk.relay P path hopDecoy i as t₀
        = (pk.sentOn hopDecoy i xs).map (fun x =>
            (nextHopPort path i, pk.packet P path (i + 1) x)) ∧
      ∀ d, ofDomain d (taken xs) <+: ofDomain d xs ∧
        ∀ cs, cs <+: ofDomain d xs → (cs <+: ofDomain d (taken xs) ↔ NoLongGap d cs) := by
  refine ⟨?_, fun d => ⟨?_, fun cs hcs => hstream.prefix_taken hcs⟩⟩
  · exact (simulates_extend (pk.atHop P path i) hext hforeign).relay hideal hhop hallowed
      hopDecoy as fun a ha => hstream.client a.1 (List.mem_map_of_mem ha)
  · rw [hstream.taken_eq]
    exact reach_prefix d none _

/-! Three relays in a row. -/

/-- The stamps that come to hop `k` over links that lose nothing. -/
def PathPackets.reaching (hopDecoy : Bool) (xs : List (Domain × Nat)) : Nat → List (Domain × Nat)
  | 0 => xs
  | k + 1 =>
    if h : k < nPathHops then pk.sentOn hopDecoy ⟨k, h⟩ (PathPackets.reaching hopDecoy xs k)
    else PathPackets.reaching hopDecoy xs k

/-- Those that are meant for hop `k`: all but the decoys that end before it. -/
def PathPackets.meantFor (xs : List (Domain × Nat)) (k : Nat) : List (Domain × Nat) :=
  xs.filter fun x => decide (pk.drop x < 0 ∨ (k : Int) ≤ pk.drop x)

theorem PathPackets.sentOn_sublist (hopDecoy : Bool) (i : Fin nPathHops)
    (xs : List (Domain × Nat)) : (pk.sentOn hopDecoy i xs).Sublist xs :=
  List.filter_sublist.trans (taken_sublist xs)

theorem PathPackets.reaching_succ (hopDecoy : Bool) (xs : List (Domain × Nat))
    (i : Fin nPathHops) :
    pk.reaching hopDecoy xs (i + 1) = pk.sentOn hopDecoy i (pk.reaching hopDecoy xs i) := by
  rw [PathPackets.reaching, dif_pos i.isLt]

theorem PathPackets.reaching_sublist (hopDecoy : Bool) (xs : List (Domain × Nat)) (k : Nat) :
    (pk.reaching hopDecoy xs k).Sublist xs := by
  induction k with
  | zero => exact List.Sublist.refl _
  | succ k ih =>
    unfold PathPackets.reaching
    split
    · exact (pk.sentOn_sublist hopDecoy _ _).trans ih
    · exact ih

theorem PathPackets.meantFor_zero (xs : List (Domain × Nat)) : pk.meantFor xs 0 = xs := by
  refine List.filter_eq_self.mpr fun x _ => decide_eq_true ?_
  omega

/-- Those that a relay of the decoy build sends on are meant for the next hop. -/
theorem PathPackets.meantFor_succ (xs : List (Domain × Nat)) (i : Fin nPathHops) :
    (pk.meantFor xs i).filter (fun x => !pk.endsAt true i x) = pk.meantFor xs (i + 1) := by
  rw [PathPackets.meantFor, List.filter_filter]
  refine List.filter_congr fun x _ => ?_
  rw [PathPackets.endsAt, Bool.true_and, ← decide_not, ← Bool.decide_and, decide_eq_decide]
  push_cast
  omega

theorem PathPackets.reaching_meant (xs : List (Domain × Nat)) (k : Nat) (hk : k ≤ nPathHops) :
    (pk.reaching true xs k).Sublist (pk.meantFor xs k) := by
  induction k with
  | zero =>
    rw [pk.meantFor_zero]
    exact List.Sublist.refl _
  | succ k ih =>
    have hrest := ih (Nat.le_of_succ_le hk)
    rw [pk.reaching_succ true xs ⟨k, hk⟩, ← pk.meantFor_succ xs ⟨k, hk⟩]
    exact ((taken_sublist _).trans hrest).filter _

theorem PathPackets.reaching_step {xs : List (Domain × Nat)} {k : Nat} (hk : k < nPathHops)
    (h : taken (pk.reaching true xs k) = pk.meantFor xs k) :
    pk.reaching true xs (k + 1) = pk.meantFor xs (k + 1) := by
  rw [pk.reaching_succ true xs ⟨k, hk⟩, ← pk.meantFor_succ xs ⟨k, hk⟩, PathPackets.sentOn, h]

/-- Packets get where they are meant to exactly if no relay sees a long gap. -/
theorem PathPackets.reaching_iff {xs : List (Domain × Nat)} (h : ClientStream xs) :
    (∀ i : Fin nPathHops, taken (pk.reaching true xs i) = pk.meantFor xs i) ↔
      ∀ (i : Fin nPathHops) (d : Domain), NoLongGap d (ofDomain d (pk.meantFor xs i)) := by
  have hmeant : ∀ k, taken (pk.meantFor xs k) = pk.meantFor xs k
      ↔ ∀ d, NoLongGap d (ofDomain d (pk.meantFor xs k)) := fun k =>
    (h.sublist List.filter_sublist).taken_all
  constructor
  · intro hall i
    refine (hmeant i).mp ?_
    have hreach : pk.reaching true xs i = pk.meantFor xs i := by
      obtain ⟨k, hk⟩ := i
      cases k with
      | zero => exact (pk.meantFor_zero xs).symm
      | succ k => exact pk.reaching_step (Nat.lt_of_succ_lt hk) (hall ⟨k, Nat.lt_of_succ_lt hk⟩)
    rw [← hreach, hall i, hreach]
  · intro hgap
    have hreach : ∀ k ≤ nPathHops, pk.reaching true xs k = pk.meantFor xs k := by
      intro k
      induction k with
      | zero => exact fun _ => (pk.meantFor_zero xs).symm
      | succ k ih =>
        intro hk
        refine pk.reaching_step hk ?_
        rw [ih (Nat.le_of_succ_le hk), (hmeant k).mpr (hgap ⟨k, hk⟩)]
    intro i
    rw [hreach i i.isLt.le, (hmeant i).mpr (hgap i)]

/-- Three relays of the decoy build in a row, over links that lose nothing: what each sends is
what comes to the next. No decoy gets beyond the hop that was chosen for it, what comes to the
gateway is unwrapped to what was put in, and all packets get to where they are meant to exactly if
the decoys that end before a relay leave no gap there of 33 counters, or beyond the first window. -/
theorem decoys_end_where_chosen {masters : Fin nPathHops → AesKey}
    {j : Fin nPathHops → Fin maxSessions} (hideal : ∀ i, HintsDistinct P fun m => m = masters i)
    (hhop : ∀ i, path.hops i = deriveHop P (masters i))
    (hallowed : ∀ i, isAllowedNextHop localhostBytes (nextHopPort path i))
    {role : UInt8} {start : Nat} {t t₀ : Fin nPathHops → Table}
    (hext : ∀ i, extendSession P (t i) (masters i) role start = some (j i, t₀ i))
    (hforeign : ∀ i k, k ≠ j i → (t₀ i k).inUse = true → ∀ d w c, c < 2 ^ 64 →
      (t₀ i k).hintWindow d w ≠ packetDeriveHopHint P (packetDeriveHintSeed P (masters i)) c)
    (xs : List (Domain × Nat)) (hstream : ClientStream xs)
    (as : Fin nPathHops → List ((Domain × Nat) × Nat))
    (has : ∀ i, (as i).map Prod.fst = pk.reaching true xs i) :
    (∀ i, pk.relay P path true i (as i) (t₀ i)
        = (pk.reaching true xs (i + 1)).map fun x =>
            (nextHopPort path i, pk.packet P path (i + 1) x)) ∧
      (∀ k ≤ nPathHops, ∀ x ∈ pk.reaching true xs k, pk.drop x < 0 ∨ k ≤ pk.drop x) ∧
      (∀ x ∈ pk.reaching true xs nPathHops,
        packetSphinxUnwrap P (pk.packet P path nPathHops x) path.e2eKey
          = some (pk.payload x, pk.flags x)) ∧
      ((∀ i : Fin nPathHops, taken (pk.reaching true xs i) = pk.meantFor xs i) ↔
        ∀ (i : Fin nPathHops) (d : Domain), NoLongGap d (ofDomain d (pk.meantFor xs i))) := by
  refine ⟨fun i => ?_, fun k hk x hx => ?_, fun x _ => pk.unwraps x, pk.reaching_iff hstream⟩
  · have hclient : ∀ a ∈ as i, FromClient a.1 := by
      intro a ha
      refine hstream.client a.1 ((pk.reaching_sublist true xs i).subset ?_)
      rw [← has i]
      exact List.mem_map_of_mem ha
    have hrelay := (simulates_extend (pk.atHop P path i) (hext i) (hforeign i)).relay (hideal i)
      (hhop i) (hallowed i) true (as i) hclient
    rw [hrelay, pk.reaching_succ, PathPackets.sentOn, taken, has]
  · exact of_decide_eq_true (List.mem_filter.mp ((pk.reaching_meant xs k hk).subset hx)).2

/-! A client whose second cover packet is a decoy for the second relay. -/

def samplePathPackets : PathPackets where
  payload _ := [7]
  flags _ := pktReal ||| pktDestService
  drop x := if x = (.cover, hintCoverCounterBase + 1) then 1 else -1
  rnd x := ⟨Bytes.zero _, fun _ => bigEndian nonceBytes x.2⟩
  pad _ _ := Bytes.zero _
  payload_le _ := by decide
  drop_range x := by split <;> simp
  fresh _ x y hx hy heq := samplePackets.fresh x y hx hy heq

/-- The first packets of a new client. -/
def sampleStream : List (Domain × Nat) :=
  [(.real, 0), (.cover, hintCoverCounterBase + 0), (.cover, hintCoverCounterBase + 1), (.real, 1)]

theorem clientStream_sample : ClientStream sampleStream where
  client x hx := by
    simp only [sampleStream, List.mem_cons, List.not_mem_nil, or_false] at hx
    obtain rfl | rfl | rfl | rfl := hx
    · exact (fromClient_iff _).mpr (by decide)
    · exact (fromClient_iff _).mpr (by decide)
    · exact (fromClient_iff _).mpr (by decide)
    · exact (fromClient_iff _).mpr (by decide)
  first := by decide +kernel
  sorted d := by cases d <;> decide +kernel

/-- A session of each hop at a relay that has no others. -/
theorem sample_sessions : ∃ (j : Fin nPathHops → Fin maxSessions) (t₀ : Fin nPathHops → Table),
    (∀ i : Fin nPathHops, extendSession .sample (fun _ => zeroEntry) (sampleMaster i) sessionRoleA 0
      = some (j i, t₀ i)) ∧
    ∀ i k, k ≠ j i → (t₀ i k).inUse = false := by
  have hsome : ∀ i : Fin nPathHops, (extendSession .sample (fun _ => zeroEntry) (sampleMaster i)
      sessionRoleA 0).isSome := by decide +kernel
  choose out hext using fun i => Option.isSome_iff_exists.mp (hsome i)
  refine ⟨fun i => (out i).1, fun i => (out i).2, hext, fun i k hk => ?_⟩
  obtain ⟨sess, heq, -⟩ := extendSession_eq_some .sample (hext i)
  change ((out i).2 k).inUse = false
  rw [heq, Function.update_of_ne hk]
  rfl

theorem hintsDistinct_sampleMaster (i : Fin nPathHops) :
    HintsDistinct .sample fun m => m = sampleMaster i :=
  fun m m' hm hm' => hintsDistinct_sample m m' ⟨i, hm⟩ ⟨i, hm'⟩

/-- Behind a gap the first relay takes nothing more. -/
theorem relay_stream_gap : ∃ (j : Fin nPathHops → Fin maxSessions)
    (t₀ : Fin nPathHops → Table),
    (∀ i : Fin nPathHops, extendSession .sample (fun _ => zeroEntry) (sampleMaster i) sessionRoleA 0
      = some (j i, t₀ i)) ∧
    samplePathPackets.relay .sample .sample false 0
        [((.real, 0), 0), ((.real, 64), 1), ((.real, 65), 2), ((.real, 66), 3)] (t₀ 0)
      = [(nextHopPort .sample 0, samplePathPackets.packet .sample .sample 1 (.real, 0))] := by
  obtain ⟨j, t₀, hext, hunused⟩ := sample_sessions
  have hstream : ClientStream [(.real, 0), (.real, 64), (.real, 65), (.real, 66)] := by
    refine ⟨fun x hx => ?_, by decide +kernel, fun d => by cases d <;> decide +kernel⟩
    simp only [List.mem_cons, List.not_mem_nil, or_false] at hx
    obtain rfl | rfl | rfl | rfl := hx <;> exact (fromClient_iff _).mpr (by decide)
  have hhop : SphinxPath.sample.hops 0 = deriveHop .sample (sampleMaster 0) := rfl
  have hallowed : isAllowedNextHop localhostBytes (nextHopPort .sample 0) := by decide
  have hall := relay_stream samplePathPackets (hintsDistinct_sampleMaster 0) hhop hallowed (hext 0)
    (fun k hk huse => absurd huse (by rw [hunused 0 k hk]; exact Bool.false_ne_true))
    false [((.real, 0), 0), ((.real, 64), 1), ((.real, 65), 2), ((.real, 66), 3)] hstream
  have hsent : samplePathPackets.sentOn false 0 [(.real, 0), (.real, 64), (.real, 65), (.real, 66)]
      = [(.real, 0)] := by decide +kernel
  exact ⟨j, t₀, hext, hall.1.trans (congrArg (List.map _) hsent)⟩

theorem decoys_end_where_chosen_second : ∃ (j : Fin nPathHops → Fin maxSessions)
    (t₀ : Fin nPathHops → Table),
    (∀ i : Fin nPathHops, extendSession .sample (fun _ => zeroEntry) (sampleMaster i) sessionRoleA 0
      = some (j i, t₀ i)) ∧
    samplePathPackets.relay .sample .sample true 2
        ((samplePathPackets.reaching true sampleStream 2).map fun x => (x, 0)) (t₀ 2)
      = [(.real, 0), (.cover, hintCoverCounterBase), (.real, 1)].map fun x =>
          (portServiceGw, samplePathPackets.packet .sample .sample 3 x) := by
  obtain ⟨j, t₀, hext, hunused⟩ := sample_sessions
  have hhop : ∀ i : Fin nPathHops,
      SphinxPath.sample.hops i = deriveHop .sample (sampleMaster i) := fun _ => rfl
  have hallowed : ∀ i, isAllowedNextHop localhostBytes (nextHopPort .sample i) := by decide
  have hall := decoys_end_where_chosen samplePathPackets hintsDistinct_sampleMaster hhop hallowed
    hext
    (fun i k hk huse => absurd huse (by rw [hunused i k hk]; exact Bool.false_ne_true))
    sampleStream clientStream_sample
    (fun i => (samplePathPackets.reaching true sampleStream i).map fun x => (x, 0))
    (fun i => by rw [List.map_map]; exact List.map_id _)
  have hreach : samplePathPackets.reaching true sampleStream 3
      = [(.real, 0), (.cover, hintCoverCounterBase), (.real, 1)] := by decide +kernel
  refine ⟨j, t₀, hext, (hall.1 2).trans ?_⟩
  rw [show ((2 : Fin nPathHops) : Nat) + 1 = 3 from rfl, hreach]
  rfl

end AnonSecNet.MixNode
