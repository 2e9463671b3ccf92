import AnonSecNet.NodePool

/-! The guard set files of `node_pool.c`: what is read from one, what is drawn when it holds no
valid set, and `node_pool_init` of `client.c`. -/
namespace AnonSecNet.NodePool
variable (F : Doubles) (weight : Node → F.D)

/-! The text of a file. -/

/-- `isspace`. -/
def isSpace (c : UInt8) : Bool := c = 32 ∨ (9 ≤ c ∧ c ≤ 13)

def isDigit (c : UInt8) : Bool := 48 ≤ c ∧ c ≤ 57

def digitsValue (digits : List UInt8) : Nat :=
  digits.foldl (fun value c => value * 10 + (c.toNat - 48)) 0

/-- What `%d` stores: the value as a `long`, of which an `int` keeps the low half. -/
def storedInt (value : Int) : Int := (max (-2 ^ 63) (min value (2 ^ 63 - 1))).bmod (2 ^ 32)

/-- `fscanf` with `%d`: the number and the rest of the file. -/
def scanInt (text : List UInt8) : Option (Int × List UInt8) :=
  let text := text.dropWhile isSpace
  let (negative, text) : Bool × List UInt8 :=
    match text with
    | 45 :: rest => (true, rest)
    | 43 :: rest => (false, rest)
    | _ => (false, text)
  let digits := text.takeWhile isDigit
  let value : Int := digitsValue digits
  if digits = [] then none
  else some (storedInt (if negative then -value else value), text.dropWhile isDigit)

def digitBytes (n : Nat) : List UInt8 := (Nat.toDigits 10 n).map fun c => UInt8.ofNat c.toNat

/-- One `fprintf` with `%d\n`. -/
def printLine (n : Nat) : List UInt8 := digitBytes n ++ [10]

/-! Loading and drawing. -/

/-- The loop of `load_guard_set`: an id out of range rejects the file. -/
def loadIds : (count : Nat) → List UInt8 → Option { ids : List Node // ids.length = count }
  | 0, _ => some ⟨[], rfl⟩
  | count + 1, text =>
    (scanInt text).bind fun (id, text) =>
      if h : 0 ≤ id ∧ id < poolSize then
        (loadIds count text).map fun ids =>
          ⟨⟨id.toNat, by omega⟩ :: ids.1, congrArg (· + 1) ids.2⟩
      else none

/-- `none` is a file that cannot be opened. -/
def loadGuardSet (file : Option (List UInt8)) : Option GuardSet :=
  file.bind fun text =>
    (scanInt text).bind fun (count, text) =>
      if h : 0 < count ∧ count ≤ guardSetSize then
        (loadIds count.toNat text).map fun ids => ⟨ids.1, by have := ids.2; omega⟩
      else none

/-- `save_guard_set`. -/
def guardSetText (guards : GuardSet) : List UInt8 :=
  printLine guards.1.length ++ guards.1.flatMap fun node => printLine node.val

/-- The draws of `guard_set_load_or_create`, behind those in `drawn`. -/
def drawGuards (exclude : List Node) : (picks : Nat) → (drawn : List Node) → UInt64 →
    Option ({ ids : List Node // ids.length = drawn.length + picks } × UInt64)
  | 0, drawn, rng => some (⟨drawn, rfl⟩, rng)
  | picks + 1, drawn, rng =>
    (weightedDrawExcluding F weight rng exclude drawn).bind fun (picked, rng) =>
      (drawGuards exclude picks (drawn ++ [picked]) rng).map fun (ids, rng) =>
        (⟨ids.1, ids.2.trans (by simp; omega)⟩, rng)

/-- The set, the file it is kept in, and the state of the draws. -/
structure Guarded where
  guards : GuardSet
  file : Option (List UInt8)
  rng : UInt64

/-- `saves` is whether a new file can be written and renamed. -/
def guardSetLoadOrCreate (file : Option (List UInt8)) (guardSize : Nat) (exclude : List Node)
    (saves : Bool) (rng : UInt64) : Option Guarded :=
  match loadGuardSet file with
  | some guards => some ⟨guards, file, rng⟩
  | none =>
    (drawGuards F weight exclude (min guardSize guardSetSize) [] rng).bind fun (ids, rng) =>
      let guards : GuardSet := ⟨ids.1, ids.2.trans_le (by simp)⟩
      if saves then some ⟨guards, some (guardSetText guards), rng⟩ else none

/-- `client_guard_a.txt` and `client_guard_b.txt`. -/
structure GuardFiles where
  a : Option (List UInt8)
  b : Option (List UInt8)

/-- `g_guard_a`, `g_guard_b`, their files and `g_path_rng`. -/
structure Pool where
  guardA : GuardSet
  guardB : GuardSet
  files : GuardFiles
  rng : UInt64

/-- `seed` is what `node_pool_seed_from_urandom` draws. -/
def nodePoolInit (files : GuardFiles) (savesA savesB : Bool) (seed : UInt64) : Option Pool :=
  (guardSetLoadOrCreate F weight files.a guardSetSize [] savesA seed).bind fun a =>
    (guardSetLoadOrCreate F weight files.b guardSetSize a.guards.1 savesB a.rng).map fun b =>
      ⟨a.guards, b.guards, ⟨a.file, b.file⟩, b.rng⟩

/-! What is written is read back. -/

section
variable {F weight}

theorem toNat_digitByte {c : Char} (hc : c.isDigit = true) :
    (UInt8.ofNat c.toNat).toNat = c.toNat := by
  have hbounds : 48 ≤ c.toNat ∧ c.toNat ≤ 57 := Char.isDigit_iff_toNat.mp hc
  rw [UInt8.toNat_ofNat']
  omega

theorem isDigit_of_mem {n : Nat} {b : UInt8} (hb : b ∈ digitBytes n) : isDigit b = true := by
  obtain ⟨c, hc, rfl⟩ := List.mem_map.mp hb
  have hdigit : c.isDigit = true := Nat.isDigit_of_mem_toDigits (by decide) (by decide) hc
  have hbounds := Char.isDigit_iff_toNat.mp hdigit
  have hbyte := toNat_digitByte hdigit
  unfold isDigit
  rw [decide_eq_true_iff, UInt8.le_iff_toNat_le, UInt8.le_iff_toNat_le, hbyte]
  exact hbounds

theorem digitBytes_ne_nil (n : Nat) : digitBytes n ≠ [] := by
  unfold digitBytes
  rw [ne_eq, List.map_eq_nil_iff]
  exact Nat.toDigits_ne_nil

theorem digitsValue_digitBytes (n : Nat) : digitsValue (digitBytes n) = n := by
  unfold digitsValue digitBytes
  rw [List.foldl_map]
  calc (Nat.toDigits 10 n).foldl (fun v c => v * 10 + ((UInt8.ofNat c.toNat).toNat - 48)) 0
      = (Nat.toDigits 10 n).foldl (fun v c => 10 * v + (c.toNat - '0'.toNat)) 0 := by
        apply List.foldl_ext
        intro v c hc
        rw [toNat_digitByte (Nat.isDigit_of_mem_toDigits (by decide) (by decide) hc), mul_comm]
        rfl
    _ = n := by rw [← Nat.ofDigitChars_eq_foldl, Nat.ofDigitChars_ten_toDigits]

theorem storedInt_of_lt {n : Nat} (hn : n < 2 ^ 31) : storedInt n = n := by
  unfold storedInt
  rw [min_eq_left (by omega), max_eq_right (by omega)]
  exact Int.bmod_eq_of_le (by omega) (by omega)

/-- White space in front of a number is skipped, and the line break behind it is left. -/
theorem scanInt_printLine {n : Nat} (hn : n < 2 ^ 31) (lead : List UInt8)
    (hlead : ∀ c ∈ lead, isSpace c = true) (rest : List UInt8) :
    scanInt (lead ++ (printLine n ++ rest)) = some ((n : Int), 10 :: rest) := by
  have hline : printLine n ++ rest = digitBytes n ++ 10 :: rest := List.append_assoc ..
  have htake : (digitBytes n ++ 10 :: rest).takeWhile isDigit = digitBytes n := by
    rw [List.takeWhile_append_of_pos fun b => isDigit_of_mem]
    simp [isDigit]
  have hdrop : (digitBytes n ++ 10 :: rest).dropWhile isDigit = 10 :: rest := by
    rw [List.dropWhile_append_of_pos fun b => isDigit_of_mem]
    simp [isDigit]
  obtain ⟨b, bs, hb⟩ := List.exists_cons_of_ne_nil (digitBytes_ne_nil n)
  have hdigit : isDigit b = true := isDigit_of_mem (n := n) (by rw [hb]; exact List.mem_cons_self)
  have hspace : (digitBytes n ++ 10 :: rest).dropWhile isSpace = digitBytes n ++ 10 :: rest := by
    rw [hb, List.cons_append, List.dropWhile_cons_of_neg]
    simp only [isSpace, isDigit, decide_eq_true_eq] at hdigit ⊢
    grind
  have hsign : b ≠ 45 ∧ b ≠ 43 := by
    constructor
    · intro heq
      rw [heq] at hdigit
      cases hdigit
    · intro heq
      rw [heq] at hdigit
      cases hdigit
  unfold scanInt
  rw [hline, List.dropWhile_append_of_pos hlead, hspace]
  dsimp only
  split
  · rename_i heq
    rw [hb] at heq
    exact absurd (List.cons.inj heq).1 hsign.1
  · rename_i heq
    rw [hb] at heq
    exact absurd (List.cons.inj heq).1 hsign.2
  · rw [htake, hdrop, if_neg (digitBytes_ne_nil n), digitsValue_digitBytes]
    simp [storedInt_of_lt hn]

theorem loadIds_lines (nodes : List Node) (lead : List UInt8)
    (hlead : ∀ c ∈ lead, isSpace c = true) (rest : List UInt8) :
    loadIds nodes.length (lead ++ ((nodes.flatMap fun node => printLine node.val) ++ rest))
      = some ⟨nodes, rfl⟩ := by
  induction nodes generalizing lead with
  | nil => rfl
  | cons node nodes ih =>
    have hid : node.val < 2 ^ 31 := node.isLt.trans (by decide)
    have hscan := scanInt_printLine hid lead hlead
      ((nodes.flatMap fun node => printLine node.val) ++ rest)
    have hrange : (0 : Int) ≤ node.val ∧ (node.val : Int) < poolSize :=
      ⟨Int.natCast_nonneg _, Int.ofNat_lt.mpr node.isLt⟩
    rw [List.flatMap_cons, List.append_assoc]
    change (scanInt _).bind _ = _
    rw [hscan, Option.bind_some]
    dsimp only
    have hrest := ih [10] (by simp [isSpace])
    rw [List.singleton_append] at hrest
    rw [dif_pos hrange, hrest]
    rfl

theorem loadGuardSet_guardSetText {guards : GuardSet} (hne : guards.1 ≠ []) :
    loadGuardSet (some (guardSetText guards)) = some guards := by
  have hpos := List.length_pos_of_ne_nil hne
  have hle := guards.2
  have hcount : guards.1.length < 2 ^ 31 := hle.trans_lt (by decide)
  have hscan := scanInt_printLine hcount [] (by simp)
    (guards.1.flatMap fun node => printLine node.val)
  have hids := loadIds_lines guards.1 [10] (by simp [isSpace]) []
  rw [List.append_nil, List.singleton_append] at hids
  have hbound : (0 : Int) < guards.1.length ∧ (guards.1.length : Int) ≤ guardSetSize :=
    ⟨Int.ofNat_lt.mpr hpos, Int.ofNat_le.mpr hle⟩
  unfold loadGuardSet guardSetText
  rw [List.nil_append] at hscan
  rw [Option.bind_some, hscan, Option.bind_some]
  dsimp only
  rw [dif_pos hbound]
  simp only [Int.toNat_natCast]
  rw [hids]
  rfl

/-! What a file must hold. -/

def scanInts : (count : Nat) → List UInt8 → Option (List Int)
  | 0, _ => some []
  | count + 1, text =>
    (scanInt text).bind fun (id, text) => (scanInts count text).map fun ids => id :: ids

theorem scanInts_of_loadIds {count : Nat} {text : List UInt8}
    {nodes : { ids : List Node // ids.length = count }} (h : loadIds count text = some nodes) :
    scanInts count text = some (nodes.1.map fun node => (node.val : Int)) := by
  induction count generalizing text with
  | zero =>
    obtain rfl := Option.some.inj h
    rfl
  | succ count ih =>
    obtain ⟨⟨id, rest⟩, hscan, h⟩ := Option.bind_eq_some_iff.mp h
    dsimp only at h
    split at h
    · rename_i hrange
      obtain ⟨later, hlater, rfl⟩ := Option.map_eq_some_iff.mp h
      unfold scanInts
      rw [hscan, Option.bind_some]
      dsimp only
      rw [ih hlater]
      simp [Int.toNat_of_nonneg hrange.1]
    · cases h

/-- A set is read from a file whose first number is its size and whose next numbers are its
ids, all of them in range. -/
theorem scan_of_loadGuardSet {text : List UInt8} {guards : GuardSet}
    (h : loadGuardSet (some text) = some guards) :
    ∃ count rest ids, scanInt text = some (count, rest) ∧
      (1 ≤ count ∧ count ≤ guardSetSize) ∧ scanInts count.toNat rest = some ids ∧
      (∀ id ∈ ids, 0 ≤ id ∧ id < poolSize) ∧
      guards.1.length = count ∧ (guards.1.map fun node => (node.val : Int)) = ids := by
  unfold loadGuardSet at h
  rw [Option.bind_some] at h
  obtain ⟨⟨count, rest⟩, hscan, h⟩ := Option.bind_eq_some_iff.mp h
  dsimp only at h
  split at h
  · rename_i hcount
    obtain ⟨nodes, hnodes, rfl⟩ := Option.map_eq_some_iff.mp h
    have hlen := nodes.2
    refine ⟨count, rest, _, hscan, hcount, scanInts_of_loadIds hnodes, ?_, by grind, rfl⟩
    intro id hid
    obtain ⟨node, -, rfl⟩ := List.mem_map.mp hid
    exact ⟨Int.natCast_nonneg _, Int.ofNat_lt.mpr node.isLt⟩
  · cases h

/-! What is drawn. -/

/-- A draw avoids what was drawn before it and `exclude`. -/
theorem drawGuards_apart {exclude drawn : List Node} {picks : Nat} {rng rng' : UInt64}
    {ids : { ids : List Node // ids.length = drawn.length + picks }}
    (h : drawGuards F weight exclude picks drawn rng = some (ids, rng'))
    (hnodup : drawn.Nodup) (hdrawn : ∀ node ∈ drawn, node ∉ exclude) :
    ids.1.Nodup ∧ ∀ node ∈ ids.1, node ∉ exclude := by
  induction picks generalizing drawn rng with
  | zero =>
    obtain ⟨rfl, -⟩ := Prod.mk.inj (Option.some.inj h)
    exact ⟨hnodup, hdrawn⟩
  | succ picks ih =>
    unfold drawGuards at h
    obtain ⟨⟨picked, rng₁⟩, hpicked, h⟩ := Option.bind_eq_some_iff.mp h
    obtain ⟨⟨later, rng₂⟩, hlater, h⟩ := Option.map_eq_some_iff.mp h
    obtain ⟨rfl, rfl⟩ := Prod.mk.inj h
    obtain ⟨hexclude, hnew⟩ := weightedDrawExcluding_notMem hpicked
    apply ih hlater
    · rw [← List.concat_eq_append]
      exact hnodup.concat hnew
    · intro node hnode
      cases List.mem_append.mp hnode with
      | inl hnode => exact hdrawn node hnode
      | inr hnode => exact List.mem_singleton.mp hnode ▸ hexclude

/-- A set is the one in the file, or was drawn from outside `exclude`, and is then in the
file. -/
theorem guardSetLoadOrCreate_cases {file : Option (List UInt8)} {guardSize : Nat}
    {exclude : List Node} {saves : Bool} {rng : UInt64} {g : Guarded}
    (h : guardSetLoadOrCreate F weight file guardSize exclude saves rng = some g) :
    loadGuardSet file = some g.guards ∨
      (loadGuardSet file = none ∧ g.guards.1.length = min guardSize guardSetSize ∧
        g.guards.1.Nodup ∧ (∀ node ∈ g.guards.1, node ∉ exclude) ∧
        g.file = some (guardSetText g.guards)) := by
  unfold guardSetLoadOrCreate at h
  split at h
  · rename_i guards hload
    obtain rfl := Option.some.inj h
    exact .inl hload
  · rename_i hload
    obtain ⟨⟨ids, rng₁⟩, hids, h⟩ := Option.bind_eq_some_iff.mp h
    dsimp only at h
    split at h
    · obtain rfl := Option.some.inj h
      obtain ⟨hnodup, hapart⟩ := drawGuards_apart hids List.nodup_nil (by simp)
      exact .inr ⟨hload, ids.2.trans (by simp), hnodup, hapart, rfl⟩
    · cases h

end

end AnonSecNet.NodePool
