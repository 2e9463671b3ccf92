import AnonSecNet.Identity.PinFiles

/-! Which content keys share a pin file, with each other or with a node. -/
namespace AnonSecNet.Identity
open Octets
open Retrieval (safeChar senderPinPath)
open Sender (CString maxSendKeyLen)

/-- The content keys that `send_app_request` accepts. -/
abbrev ContentKey : Type := { key : CString // key.1.length ≤ maxSendKeyLen }

/-- Letters, digits and `-`: no other character is written as one of these. -/
def Kept (c : UInt8) : Prop :=
  (48 ≤ c ∧ c ≤ 57) ∨ (65 ≤ c ∧ c ≤ 90) ∨ (97 ≤ c ∧ c ≤ 122) ∨ c = 45

instance : DecidablePred Kept := fun _ => inferInstanceAs (Decidable (_ ∨ _))

/-- The keys have different lengths, or differ at a position where one of them has a letter, a
digit or `-`. -/
def ToldApart (k k' : List UInt8) : Prop :=
  k.length ≠ k'.length ∨ ∃ p ∈ k.zip k', p.1 ≠ p.2 ∧ (Kept p.1 ∨ Kept p.2)

theorem safeChar_kept {c : UInt8} (h : Kept c) : safeChar c = c := by
  unfold safeChar
  split
  · rfl
  · rename_i hnot
    unfold Kept at h
    exact absurd (by tauto) hnot

theorem safeChar_not_kept {c : UInt8} (h : ¬ Kept c) : safeChar c = 95 := by
  unfold safeChar
  split
  · rename_i hsafe
    unfold Kept at h
    tauto
  · rfl

theorem not_kept_underscore : ¬ Kept 95 := by decide

theorem safeChar_ne_iff (a b : UInt8) : safeChar a ≠ safeChar b ↔ a ≠ b ∧ (Kept a ∨ Kept b) := by
  by_cases ha : Kept a
  · by_cases hb : Kept b
    · rw [safeChar_kept ha, safeChar_kept hb]
      simp only [ha, hb, or_self, and_true]
    · have hab : a ≠ b := fun h => hb (h ▸ ha)
      have hunder : a ≠ 95 := fun h => not_kept_underscore (h ▸ ha)
      rw [safeChar_kept ha, safeChar_not_kept hb]
      simp only [ne_eq, hunder, not_false_eq_true, hab, ha, true_or, and_self]
  · by_cases hb : Kept b
    · have hab : a ≠ b := fun h => ha (h ▸ hb)
      have hunder : 95 ≠ b := fun h => not_kept_underscore (h ▸ hb)
      rw [safeChar_not_kept ha, safeChar_kept hb]
      simp only [ne_eq, hunder, not_false_eq_true, hab, hb, or_true, and_self]
    · rw [safeChar_not_kept ha, safeChar_not_kept hb]
      simp only [ne_eq, not_true_eq_false, ha, hb, or_self, and_false]

theorem map_safeChar_ne_iff (k k' : List UInt8) :
    k.map safeChar ≠ k'.map safeChar ↔ ToldApart k k' := by
  induction k generalizing k' with
  | nil =>
    cases k' with
    | nil => simp [ToldApart]
    | cons b k' => simp [ToldApart]
  | cons a k ih =>
    cases k' with
    | nil => simp [ToldApart]
    | cons b k' =>
      have htail := ih k'
      unfold ToldApart at htail ⊢
      rw [List.map_cons, List.map_cons, Ne, List.cons_eq_cons, not_and_or]
      rw [← Ne, ← Ne, safeChar_ne_iff, htail]
      simp only [List.length_cons, List.zip_cons_cons, List.mem_cons, ne_eq,
        Nat.add_right_cancel_iff, exists_eq_or_imp]
      exact or_left_comm

/-! Paths. -/

theorem length_senderPinPath_le (key : CString) : (senderPinPath key).length ≤ 127 := by
  simp [senderPinPath]

/-- No path of a content key is cut off. -/
theorem senderPinFile_eq (key : CString) :
    senderPinFile key = senderPinDir ++ pinFileName (senderPinPath key) := by
  have hdir : senderPinDir.length = 11 := by decide
  have hpre : (labelBytes "/pinned_").length = 8 := by decide
  have hsuf : (labelBytes ".pub").length = 4 := by decide
  have hkey := length_senderPinPath_le key
  refine List.take_of_length_le ?_
  simp only [pinFileName, List.length_append, hdir, hpre, hsuf]
  omega

theorem senderPinPath_short {key : CString} (h : key.1.length ≤ maxSendKeyLen) :
    senderPinPath key = key.1.map safeChar := by
  unfold senderPinPath
  rw [List.take_of_length_le]
  simp only [maxSendKeyLen] at h
  omega

theorem pinFileName_inj {name name' : List UInt8} :
    pinFileName name = pinFileName name' ↔ name = name' := by
  simp [pinFileName]

theorem senderPinFile_ne_iff (k k' : ContentKey) :
    senderPinFile k.1 ≠ senderPinFile k'.1 ↔ ToldApart k.1.1 k'.1.1 := by
  rw [senderPinFile_eq, senderPinFile_eq, ne_eq, List.append_cancel_left_eq, pinFileName_inj,
    senderPinPath_short k.2, senderPinPath_short k'.2]
  exact map_safeChar_ne_iff k.1.1 k'.1.1

/-! Against the pins of nodes. -/

theorem decimal_kept {n : Nat} {c : UInt8} (h : c ∈ decimal n) : Kept c := by
  obtain ⟨d, hd, rfl⟩ := List.mem_map.mp h
  have hdigit := Nat.isDigit_of_mem_toDigits (by norm_num) (by norm_num) hd
  simp only [Char.isDigit, Bool.and_eq_true, decide_eq_true_eq, ge_iff_le, UInt32.le_iff_toNat_le]
    at hdigit
  obtain ⟨hlo, hhi⟩ := hdigit
  change 48 ≤ d.toNat at hlo
  change d.toNat ≤ 57 at hhi
  refine Or.inl ⟨?_, ?_⟩
  · rw [UInt8.le_iff_toNat_le, UInt8.toNat_ofNat']
    change 48 ≤ _
    omega
  · rw [UInt8.le_iff_toNat_le, UInt8.toNat_ofNat']
    change _ ≤ 57
    omega

theorem length_decimal_port_le (port : UInt16) : (decimal port.toNat).length ≤ 5 := by
  have hport := port.toNat_lt
  rw [decimal, List.length_map]
  exact (Nat.length_toDigits_le_iff (by norm_num) (by norm_num)).mpr (by omega)

/-- A name of kept characters is written by no other key. -/
theorem map_safeChar_eq_iff {k name : List UInt8} (hname : ∀ c ∈ name, Kept c) :
    k.map safeChar = name ↔ k = name := by
  induction k generalizing name with
  | nil => rfl
  | cons a k ih =>
    cases name with
    | nil => simp
    | cons b name =>
      have hb : Kept b := hname b List.mem_cons_self
      have hhead : safeChar a = b ↔ a = b := by
        have hne := safeChar_ne_iff a b
        rw [safeChar_kept hb] at hne
        have hor : Kept a ∨ Kept b := Or.inr hb
        rw [and_iff_left hor] at hne
        exact not_iff_not.mp hne
      rw [List.map_cons, List.cons_eq_cons, List.cons_eq_cons, hhead,
        ih fun c hc => hname c (List.mem_cons_of_mem b hc)]

theorem nodePinFile_eq {dir : FilePath} (hdir : dir.length = 11) (port : UInt16) :
    nodePinFile dir port = dir ++ pinFileName (decimal port.toNat) := by
  have hpre : (labelBytes "/pinned_").length = 8 := by decide
  have hsuf : (labelBytes ".pub").length = 4 := by decide
  have hport := length_decimal_port_le port
  refine List.take_of_length_le ?_
  simp only [pinFileName, List.length_append, hdir, hpre, hsuf]
  omega

theorem senderPinFile_ne_node_iff (k : ContentKey) (port : UInt16) :
    senderPinFile k.1 ≠ nodePinFile senderPinDir port ↔ k.1.1 ≠ decimal port.toNat := by
  rw [senderPinFile_eq, nodePinFile_eq (by decide), ne_eq, List.append_cancel_left_eq,
    pinFileName_inj, senderPinPath_short k.2, map_safeChar_eq_iff fun c => decimal_kept]

theorem senderPinFile_ne_client (k : ContentKey) (port : UInt16) :
    senderPinFile k.1 ≠ nodePinFile clientPinDir port := by
  rw [senderPinFile_eq, nodePinFile_eq (by decide)]
  intro h
  have hdir := (List.append_inj h (by decide)).1
  revert hdir
  decide

/-! Pins of one key against those of the others. -/

/-- The second key's pin is out of reach of the calls for the first one, and the first one's of
the node pins. -/
structure PinApart (k k' : ContentKey) : Prop where
  paths : senderPinFile k.1 ≠ senderPinFile k'.1
  reads : ∀ io files pub file,
    (pinSenderKey io (Function.update files (senderPinFile k'.1) file) k.1 pub).1
      = (pinSenderKey io files k.1 pub).1
  writes : ∀ io files pub, (pinSenderKey io files k.1 pub).2 (senderPinFile k'.1)
    = files (senderPinFile k'.1)
  nodes : ∀ port, ∀ dir ∈ [clientPinDir, senderPinDir], senderPinFile k.1 ≠ nodePinFile dir port

/-- Two keys have pins of their own exactly when the sanitised names tell them apart and the first
one is no port number. -/
theorem sender_pins_apart_iff (k k' : ContentKey) :
    PinApart k k' ↔ ToldApart k.1.1 k'.1.1 ∧ ∀ port : UInt16, k.1.1 ≠ decimal port.toNat := by
  rw [← senderPinFile_ne_iff]
  constructor
  · intro h
    refine ⟨h.paths, fun port => (senderPinFile_ne_node_iff k port).mp ?_⟩
    exact h.nodes port senderPinDir (by simp)
  · rintro ⟨hpaths, hports⟩
    refine ⟨hpaths, fun io files pub file => ?_, fun io files pub => pinAt_other hpaths.symm _ _ _,
      fun port dir hdir => ?_⟩
    · unfold pinSenderKey
      rw [pinAt_fst, pinAt_fst, Function.update_of_ne hpaths]
    · rcases List.mem_pair.mp hdir with rfl | rfl
      · exact senderPinFile_ne_client k port
      · exact (senderPinFile_ne_node_iff k port).mpr (hports port)

def sampleKey (s : String) (h : 0 ∉ labelBytes s := by decide)
    (hlen : (labelBytes s).length ≤ maxSendKeyLen := by decide) : ContentKey :=
  ⟨⟨labelBytes s, h⟩, hlen⟩

theorem keys_share_pins :
    (sampleKey "a/b" ≠ sampleKey "a_b" ∧
      senderPinFile (sampleKey "a/b").1 = senderPinFile (sampleKey "a_b").1) ∧
    senderPinFile (sampleKey "9001").1 = nodePinFile senderPinDir 9001 := by
  decide +kernel

end AnonSecNet.Identity
