import Mathlib.Algebra.BigOperators.Group.List.Basic
import Mathlib.Algebra.Order.Floor.Semiring
import Mathlib.Data.List.Sort
import Mathlib.Data.Rat.Floor
import Mathlib.Tactic.FieldSimp
import Mathlib.Tactic.Linarith

/-! The timing watermark of `flowcorr_watermark.py`. Times are in milliseconds and not negative. -/
namespace AnonSecNet.Evaluation

/-- `int(t // window_ms)`. -/
def windowOf (windowMs t : ℚ) : Nat := ⌊t / windowMs⌋₊

section
variable (codeBits : List Bool) (windowMs deltaMs : ℚ)

/-- What the loop of `inject_watermark` appends for a packet. -/
def markPacket (t : ℚ) : ℚ :=
  let w := windowOf windowMs t
  if codeBits[w]? = some true then
    let offset := t - w * windowMs
    let scaledDelay := deltaMs * (1 - offset / windowMs)
    t + scaledDelay
  else t

def injectWatermark (realTimes : List ℚ) : List ℚ :=
  (realTimes.map (markPacket codeBits windowMs deltaMs)).insertionSort (· ≤ ·)

def offsetsByWindow (nWindows : Nat) (observedTimes : List ℚ) : List (List ℚ) :=
  observedTimes.foldl
    (fun offsets t =>
      let w := windowOf windowMs t
      if w < nWindows then offsets.modify w (· ++ [t - w * windowMs]) else offsets)
    (List.replicate nWindows [])

/-- The mean offset; an empty window is taken to have that of an unmarked one. -/
def windowMean (offsets : List ℚ) : ℚ :=
  if offsets = [] then windowMs / 2 else offsets.sum / (offsets.length : ℚ)

def detectWatermark (observedTimes : List ℚ) (nWindows : Nat) : List Bool :=
  let means := (offsetsByWindow windowMs nWindows observedTimes).map (windowMean windowMs)
  let threshold := windowMs / 2 + deltaMs / 4
  means.map fun m => decide (threshold < m)

end

def computeBer (injectedBits recoveredBits : List Bool) : ℚ :=
  let errors := ((injectedBits.zip recoveredBits).filter fun p => p.1 ≠ p.2).length
  (errors : ℚ) / (injectedBits.length : ℚ)

/-- The offsets of the packets of a window. -/
def offsetsOf (windowMs : ℚ) (times : List ℚ) (w : Nat) : List ℚ :=
  (times.filter fun t => windowOf windowMs t = w).map fun t => t - w * windowMs

/-- A window whose bit comes out wrong, told from the packets before they are marked. -/
def Misread (codeBits : List Bool) (windowMs deltaMs : ℚ) (times : List ℚ) (w : Nat) : Prop :=
  let offsets := offsetsOf windowMs times w
  let mean := windowMean windowMs offsets
  if codeBits[w]? = some true then
    offsets = [] ∨ mean * (windowMs - deltaMs) ≤ windowMs * (windowMs / 2 - 3 * deltaMs / 4)
  else windowMs / 2 + deltaMs / 4 < mean

instance (codeBits : List Bool) (windowMs deltaMs : ℚ) (times : List ℚ) :
    DecidablePred (Misread codeBits windowMs deltaMs times) := fun w =>
  inferInstanceAs (Decidable (if codeBits[w]? = some true then _ else _))

variable {codeBits : List Bool} {windowMs deltaMs : ℚ} {times : List ℚ}

/-! Marking. -/

theorem offset_bounds (hW : 0 < windowMs) {t : ℚ} (ht : 0 ≤ t) :
    0 ≤ t - windowOf windowMs t * windowMs ∧ t - windowOf windowMs t * windowMs < windowMs := by
  have hle : (windowOf windowMs t : ℚ) ≤ t / windowMs := Nat.floor_le (div_nonneg ht hW.le)
  have hlt : t / windowMs < windowOf windowMs t + 1 := Nat.lt_floor_add_one _
  rw [le_div_iff₀ hW] at hle
  rw [div_lt_iff₀ hW] at hlt
  constructor <;> linarith

theorem windowOf_eq (hW : 0 < windowMs) {t : ℚ} (w : Nat) (h0 : 0 ≤ t - w * windowMs)
    (h1 : t - w * windowMs < windowMs) : windowOf windowMs t = w := by
  have ht : 0 ≤ t := by
    have := mul_nonneg (Nat.cast_nonneg w : (0 : ℚ) ≤ w) hW.le
    linarith
  unfold windowOf
  rw [Nat.floor_eq_iff (div_nonneg ht hW.le), le_div_iff₀ hW, div_lt_iff₀ hW]
  constructor <;> linarith

/-- The delay tapers off before the end of the window. -/
theorem windowOf_markPacket (hW : 0 < windowMs) (hdelta : 0 ≤ deltaMs) (hlt : deltaMs < windowMs)
    {t : ℚ} (ht : 0 ≤ t) :
    windowOf windowMs (markPacket codeBits windowMs deltaMs t) = windowOf windowMs t := by
  obtain ⟨h0, h1⟩ := offset_bounds hW ht
  unfold markPacket
  dsimp only
  split
  · set offset := t - windowOf windowMs t * windowMs with hoffset
    have hshare : 0 < 1 - offset / windowMs := by
      rw [sub_pos, div_lt_one hW]
      exact h1
    have hdelay : deltaMs * (1 - offset / windowMs) < windowMs - offset := by
      calc
        _ < windowMs * (1 - offset / windowMs) := mul_lt_mul_of_pos_right hlt hshare
        _ = windowMs - offset := by rw [mul_sub, mul_one, mul_div_cancel₀ _ hW.ne']
    have hnonneg := mul_nonneg hdelta hshare.le
    apply windowOf_eq hW <;> linarith
  · rfl

theorem offsetsOf_marked (hW : 0 < windowMs) (hdelta : 0 ≤ deltaMs) (hlt : deltaMs < windowMs)
    (htimes : ∀ t ∈ times, 0 ≤ t) (w : Nat) :
    offsetsOf windowMs (times.map (markPacket codeBits windowMs deltaMs)) w =
      if codeBits[w]? = some true then
        (offsetsOf windowMs times w).map fun o => o * (1 - deltaMs / windowMs) + deltaMs
      else offsetsOf windowMs times w := by
  have hfilter : (times.map (markPacket codeBits windowMs deltaMs)).filter
      (fun t => windowOf windowMs t = w) =
        (times.filter fun t => windowOf windowMs t = w).map
          (markPacket codeBits windowMs deltaMs) := by
    rw [List.filter_map]
    congr 1
    apply List.filter_congr
    intro t ht
    simp only [Function.comp_apply, windowOf_markPacket hW hdelta hlt (htimes t ht)]
  unfold offsetsOf
  rw [hfilter, List.map_map]
  split
  · rename_i hbit
    rw [List.map_map]
    apply List.map_congr_left
    intro t ht
    have hw : windowOf windowMs t = w := of_decide_eq_true (List.mem_filter.mp ht).2
    simp only [Function.comp_apply, markPacket, hw, if_pos hbit]
    field_simp
    ring
  · rename_i hbit
    apply List.map_congr_left
    intro t ht
    have hw : windowOf windowMs t = w := of_decide_eq_true (List.mem_filter.mp ht).2
    simp only [Function.comp_apply, markPacket, hw, if_neg hbit]

theorem windowMean_perm {xs ys : List ℚ} (h : xs.Perm ys) :
    windowMean windowMs xs = windowMean windowMs ys := by
  have hnil : xs = [] ↔ ys = [] :=
    ⟨fun hxs => (hxs ▸ h).nil_eq.symm, fun hys => (hys ▸ h).eq_nil⟩
  simp only [windowMean, hnil, h.sum_eq, h.length_eq]

theorem sum_map_affine (xs : List ℚ) (a b : ℚ) :
    (xs.map fun x => x * a + b).sum = xs.sum * a + (xs.length : ℚ) * b := by
  induction xs with
  | nil => simp
  | cons x xs ih =>
    rw [List.map_cons, List.sum_cons, ih, List.sum_cons, List.length_cons]
    push_cast
    ring

theorem windowMean_affine {xs : List ℚ} (hxs : xs ≠ []) (a b : ℚ) :
    windowMean windowMs (xs.map fun x => x * a + b) = windowMean windowMs xs * a + b := by
  have hlength : (xs.length : ℚ) ≠ 0 := Nat.cast_ne_zero.mpr (List.length_pos_of_ne_nil hxs).ne'
  unfold windowMean
  rw [if_neg (by simpa using hxs), if_neg hxs, sum_map_affine, List.length_map]
  field_simp

/-! Detection. -/

/-- The loop appends to each window what comes in it, in order. -/
theorem offsetsByWindow_getElem? {n w : Nat} (hw : w < n) (times : List ℚ) :
    (offsetsByWindow windowMs n times)[w]? = some (offsetsOf windowMs times w) := by
  have hfold : ∀ acc : List (List ℚ),
      (times.foldl (fun offsets t =>
        let w := windowOf windowMs t
        if w < n then offsets.modify w (· ++ [t - w * windowMs]) else offsets) acc)[w]? =
          acc[w]?.map (· ++ offsetsOf windowMs times w) := by
    induction times with
    | nil =>
      intro acc
      simp [offsetsOf]
    | cons t times ih =>
      intro acc
      rw [List.foldl_cons, ih]
      dsimp only
      by_cases hwin : windowOf windowMs t = w
      · subst hwin
        rw [if_pos hw, List.getElem?_modify_eq, Option.map_eq_map, Option.map_map]
        congr 1
        funext offsets
        simp [offsetsOf]
      · have hother : offsetsOf windowMs (t :: times) w = offsetsOf windowMs times w := by
          simp [offsetsOf, hwin]
        rw [hother]
        split
        · rw [List.getElem?_modify_ne _ _ hwin]
        · rfl
  unfold offsetsByWindow
  rw [hfold, List.getElem?_replicate_of_lt hw, Option.map_some, List.nil_append]

theorem offsetsByWindow_length (n : Nat) (times : List ℚ) :
    (offsetsByWindow windowMs n times).length = n := by
  have hfold : ∀ acc : List (List ℚ),
      (times.foldl (fun offsets t =>
        let w := windowOf windowMs t
        if w < n then offsets.modify w (· ++ [t - w * windowMs]) else offsets) acc).length =
          acc.length := by
    induction times with
    | nil => exact fun _ => rfl
    | cons t times ih =>
      intro acc
      rw [List.foldl_cons, ih]
      dsimp only
      split
      · exact List.length_modify ..
      · rfl
  unfold offsetsByWindow
  rw [hfold, List.length_replicate]

theorem detectWatermark_getElem? {n w : Nat} (hw : w < n) (times : List ℚ) :
    (detectWatermark windowMs deltaMs times n)[w]? =
      some (decide (windowMs / 2 + deltaMs / 4 <
        windowMean windowMs (offsetsOf windowMs times w))) := by
  unfold detectWatermark
  dsimp only
  rw [List.getElem?_map, List.getElem?_map, offsetsByWindow_getElem? hw, Option.map_some,
    Option.map_some]

theorem offsetsOf_sorted (times : List ℚ) (w : Nat) :
    (offsetsOf windowMs (times.insertionSort (· ≤ ·)) w).Perm (offsetsOf windowMs times w) :=
  ((List.perm_insertionSort (· ≤ ·) times).filter _).map _

/-- The bit that is recovered from the marked packets differs from the code in the windows that
are misread. -/
theorem recovered_ne_iff (hW : 0 < windowMs) (hdelta : 0 ≤ deltaMs) (hlt : deltaMs < windowMs)
    (htimes : ∀ t ∈ times, 0 ≤ t) {w : Nat} (hw : w < codeBits.length) :
    codeBits[w]? ≠ (detectWatermark windowMs deltaMs
      (injectWatermark codeBits windowMs deltaMs times) codeBits.length)[w]? ↔
        Misread codeBits windowMs deltaMs times w := by
  rw [detectWatermark_getElem? hw, injectWatermark, windowMean_perm (offsetsOf_sorted _ _),
    offsetsOf_marked hW hdelta hlt htimes, Misread]
  obtain ⟨bit, hbit⟩ : ∃ bit, codeBits[w]? = some bit := ⟨_, List.getElem?_eq_getElem hw⟩
  rw [hbit]
  cases bit with
  | false => simp
  | true =>
    simp only [if_true, ne_eq, Option.some.injEq, @eq_comm Bool true, decide_eq_true_eq, not_lt]
    by_cases hempty : offsetsOf windowMs times w = []
    · rw [hempty, List.map_nil, windowMean, if_pos rfl]
      exact iff_of_true (by linarith) (.inl rfl)
    · rw [windowMean_affine hempty, or_iff_right hempty, ← sub_nonneg,
        ← sub_nonneg (b := _ * (windowMs - deltaMs))]
      have hscale : windowMs * (windowMs / 2 - 3 * deltaMs / 4) -
          windowMean windowMs (offsetsOf windowMs times w) * (windowMs - deltaMs) =
            windowMs * (windowMs / 2 + deltaMs / 4 -
              (windowMean windowMs (offsetsOf windowMs times w) * (1 - deltaMs / windowMs) +
                deltaMs)) := by
        field_simp
        ring
      rw [hscale, mul_nonneg_iff_of_pos_left hW]

theorem computeBer_eq {injectedBits recoveredBits : List Bool}
    (h : recoveredBits.length = injectedBits.length) :
    computeBer injectedBits recoveredBits =
      (((List.range injectedBits.length).filter fun w =>
        injectedBits[w]? ≠ recoveredBits[w]?).length : ℚ) / (injectedBits.length : ℚ) := by
  have hzip : ((injectedBits.zip recoveredBits).filter fun p => p.1 ≠ p.2).length =
      ((List.range injectedBits.length).filter fun w =>
        injectedBits[w]? ≠ recoveredBits[w]?).length := by
    induction injectedBits generalizing recoveredBits with
    | nil => rfl
    | cons a injectedBits ih =>
      cases recoveredBits with
      | nil => cases h
      | cons b recoveredBits =>
        have htail := ih (Nat.succ.inj h)
        rw [List.length_cons, List.range_succ_eq_map, List.zip_cons_cons, List.filter_cons,
          List.filter_cons, List.filter_map]
        by_cases hab : a = b
        · simpa [hab, Function.comp_def] using htail
        · simpa [hab, Function.comp_def] using htail
  unfold computeBer
  dsimp only
  rw [hzip]

end AnonSecNet.Evaluation
