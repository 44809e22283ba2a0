import Mathlib.Algebra.Group.Int.Even
import Mathlib.Data.List.GetD
import Mathlib.Tactic.IntervalCases

/-!
# The mu-law encoder of the client

`PCMToPCMU` of `SendAudio.java` turns 16-bit samples, low byte first, into mu-law codes. The bytes
of a Java array are signed, and the low byte is added with its sign: where it is not below 128, the
value that is encoded is 256 less than the sample.

`pcmToPcmu_iff` says when the codes are right all the same. A segment of the code is cut into 16
steps, which are longer than 256 in the two last segments only. There the two values can have the
same code, and where they do depends on the sample divided by 256.
-/

set_option autoImplicit false

namespace WisCam.Audio

open List

/-! ### The encoder -/

/-- `BIAS`. -/
def bias : ℤ := 0x84

/-- `seg_end`. -/
def segEnd : List ℕ := [0xFF, 0x1FF, 0x3FF, 0x7FF, 0xFFF, 0x1FFF, 0x3FFF, 0x7FFF]

/-- `search`: the index of the first entry that is not smaller, or the size of the table. -/
def search (val : ℕ) : List ℕ → ℕ
  | [] => 0
  | entry :: table => if val ≤ entry then 0 else search val table + 1

/-- `linear2ulaw`, from the biased magnitude on. -/
def ulawOf (val mask : ℕ) : ℕ :=
  let seg := search val segEnd
  if 8 ≤ seg then 0x7F ^^^ mask
  else ((seg <<< 4) ||| ((val >>> (seg + 3)) &&& 0xF)) ^^^ mask

def linear2ulaw (pcmVal : ℤ) : ℕ :=
  if pcmVal < 0 then ulawOf (bias - pcmVal).toNat 0x7F else ulawOf (pcmVal + bias).toNat 0xFF

/-- What is stored in `PCMU_Data` in the first rounds of the loop, with the bytes of the array as
Java has them. An index outside the array is an exception. -/
def pcmuBytes (data : List Int8) : ℕ → Option (List Int8)
  | 0 => some []
  | i + 1 => do
    let stored ← pcmuBytes data i
    let high ← data[i * 2 + 1]?
    let low ← data[i * 2]?
    return stored ++ [Int8.ofNat (linear2ulaw (high.toInt * 256 + low.toInt))]

/-- `PCMToPCMU`. An array of negative size is an exception. -/
def pcmToPcmu (data : List Int8) (length : ℤ) : Option (List Int8) :=
  if length.tdiv 2 < 0 then none else pcmuBytes data (length.tdiv 2).toNat

/-! ### The codes of the magnitudes -/

/-- The code of a biased magnitude, before the mask. -/
def magnitudeCode (val : ℕ) : ℕ :=
  if 8 ≤ search val segEnd then 127
  else 16 * search val segEnd + val / 2 ^ (search val segEnd + 3) % 16

theorem segment_or_step : ∀ seg < 8, ∀ step < 16, (seg <<< 4) ||| step = 16 * seg + step := by
  decide

theorem xor_mask : ∀ code < 128, code ^^^ 0x7F = 127 - code ∧ code ^^^ 0xFF = 255 - code := by
  decide

theorem magnitudeCode_lt (val : ℕ) : magnitudeCode val < 128 := by
  unfold magnitudeCode
  split_ifs <;> omega

theorem ulawOf_eq (val mask : ℕ) : ulawOf val mask = magnitudeCode val ^^^ mask := by
  have hand (n : ℕ) : n &&& 15 = n % 16 := Nat.and_two_pow_sub_one_eq_mod n 4
  unfold ulawOf magnitudeCode
  dsimp only
  split_ifs with hseg
  · rfl
  · rw [hand, Nat.shiftRight_eq_div_pow,
      segment_or_step _ (Nat.not_le.mp hseg) _ (Nat.mod_lt _ (by decide))]

theorem linear2ulaw_eq (pcmVal : ℤ) :
    linear2ulaw pcmVal =
      if pcmVal < 0 then 127 - magnitudeCode (132 - pcmVal).toNat
      else 255 - magnitudeCode (pcmVal + 132).toNat := by
  unfold linear2ulaw
  split_ifs
  · rw [ulawOf_eq, (xor_mask _ (magnitudeCode_lt _)).1, bias]
  · rw [ulawOf_eq, (xor_mask _ (magnitudeCode_lt _)).2, bias]

variable {val : ℕ}

/-- The segment that is found holds the magnitude. -/
theorem search_segEnd (hval : 128 ≤ val) (hclip : val < 32768) :
    ∃ seg < 8, search val segEnd = seg ∧ 128 * 2 ^ seg ≤ val ∧ val < 256 * 2 ^ seg := by
  refine ⟨search val segEnd, ?_⟩
  simp only [search, segEnd]
  split_ifs <;> simp <;> omega

theorem magnitudeCode_of_lt (hval : 128 ≤ val) (hclip : val < 32768) :
    ∃ seg < 8, magnitudeCode val = 16 * seg + val / 2 ^ (seg + 3) % 16 ∧
      128 * 2 ^ seg ≤ val ∧ val < 256 * 2 ^ seg := by
  obtain ⟨seg, hseg, hsearch, hbounds⟩ := search_segEnd hval hclip
  refine ⟨seg, hseg, ?_, hbounds⟩
  rw [magnitudeCode, hsearch, if_neg (Nat.not_le.mpr hseg)]

theorem magnitudeCode_clipped (hclip : 32768 ≤ val) : magnitudeCode val = 127 := by
  refine if_pos ?_
  simp only [search, segEnd]
  split_ifs <;> omega

/-- The steps are 512 long from 8192 on and 1024 long from 16384 on, and what is clipped has the code
of the last step. -/
def SameStep (block : ℤ) : Prop :=
  32 ≤ block ∧ block < 64 ∧ block % 2 = 0 ∨ 64 ≤ block ∧ block % 4 ≠ 3 ∨ 124 ≤ block

theorem magnitudeCode_add_iff (hval : 128 ≤ val) :
    magnitudeCode val = magnitudeCode (val + 256) ↔ SameStep (val / 256 : ℕ) := by
  unfold SameStep
  rcases Nat.lt_or_ge val 32768 with hlt | hge
  · obtain ⟨seg, hseg, hcode, hlow, hhigh⟩ := magnitudeCode_of_lt hval hlt
    rcases Nat.lt_or_ge (val + 256) 32768 with hlt' | hge'
    · obtain ⟨seg', hseg', hcode', hlow', hhigh'⟩ := magnitudeCode_of_lt (by omega) hlt'
      rw [hcode, hcode']
      interval_cases seg <;> interval_cases seg' <;> omega
    · rw [hcode, magnitudeCode_clipped hge']
      interval_cases seg <;> omega
  · rw [magnitudeCode_clipped hge, magnitudeCode_clipped (by omega)]
    omega

/-! ### The samples -/

/-- The sample with this low byte, taken without a sign, and this high byte. -/
def sample (low high : Int8) : ℤ := high.toInt * 256 + low.toInt % 256

/-- The low byte is below 128, or the sample and the value 256 below it have the same code. -/
def LowByteKept (low high : Int8) : Prop :=
  0 ≤ low.toInt ∨
    SameStep ((if high.toInt < 0 then 132 - sample low high else sample low high - 124) / 256)

/-- A value and the one 256 below it, which is farther from zero if they are negative. -/
theorem linear2ulaw_sub_iff (value : ℤ) :
    linear2ulaw (value - 256) = linear2ulaw value ↔
      SameStep ((if value < 0 then 132 - value else value - 124) / 256) := by
  rw [linear2ulaw_eq, linear2ulaw_eq]
  rcases lt_or_ge value 0 with hneg | hpos
  · have hfar : (132 - (value - 256)).toNat = (132 - value).toNat + 256 := by omega
    have hblock : (132 - value) / 256 = ((132 - value).toNat / 256 : ℕ) := by omega
    have hnear := magnitudeCode_lt (132 - value).toNat
    have hfarther := magnitudeCode_lt ((132 - value).toNat + 256)
    rw [if_pos hneg, if_pos hneg, if_pos (by omega), hfar, hblock,
      ← magnitudeCode_add_iff (by omega)]
    omega
  rw [if_neg (Int.not_lt.mpr hpos), if_neg (Int.not_lt.mpr hpos)]
  rcases lt_or_ge value 256 with hsmall | hlarge
  · -- the two values have different signs, and the codes different first bits
    have hcode := magnitudeCode_lt (value + 132).toNat
    rw [if_pos (by omega)]
    refine iff_of_false (by omega) ?_
    unfold SameStep
    omega
  · have hnear : (value - 256 + 132).toNat = (value - 124).toNat := by omega
    have hfar : (value + 132).toNat = (value - 124).toNat + 256 := by omega
    have hblock : (value - 124) / 256 = ((value - 124).toNat / 256 : ℕ) := by omega
    have hnearer := magnitudeCode_lt (value - 124).toNat
    have hfarther := magnitudeCode_lt ((value - 124).toNat + 256)
    rw [if_neg (by omega), hnear, hfar, hblock, ← magnitudeCode_add_iff (by omega)]
    omega

theorem ofNat_linear2ulaw_inj {value value' : ℤ} :
    Int8.ofNat (linear2ulaw value) = Int8.ofNat (linear2ulaw value') ↔
      linear2ulaw value = linear2ulaw value' := by
  have hlt (value : ℤ) : linear2ulaw value < 256 := by
    rw [linear2ulaw_eq]
    split_ifs <;> omega
  refine ⟨fun h ↦ ?_, congrArg _⟩
  have hbits := congrArg (fun b ↦ b.toBitVec.toNat) h
  simpa [Nat.mod_eq_of_lt (hlt _)] using hbits

def storedCode (low high : Int8) : Int8 := Int8.ofNat (linear2ulaw (high.toInt * 256 + low.toInt))

def sampleCode (low high : Int8) : Int8 := Int8.ofNat (linear2ulaw (sample low high))

theorem storedCode_eq_iff (low high : Int8) :
    storedCode low high = sampleCode low high ↔ LowByteKept low high := by
  have hlow := low.le_toInt
  have hlow' := low.toInt_lt
  rw [storedCode, sampleCode, ofNat_linear2ulaw_inj, LowByteKept]
  rcases lt_or_ge low.toInt 0 with hneg | hpos
  · have hvalue : high.toInt * 256 + low.toInt = sample low high - 256 := by
      unfold sample
      omega
    have hsign : sample low high < 0 ↔ high.toInt < 0 := by
      unfold sample
      omega
    rw [hvalue, linear2ulaw_sub_iff, or_iff_right (Int.not_le.mpr hneg), if_congr hsign rfl rfl]
  · have hvalue : high.toInt * 256 + low.toInt = sample low high := by
      unfold sample
      omega
    rw [hvalue]
    exact iff_of_true rfl (.inl hpos)

/-! ### The array -/

theorem pcmuBytes_eq (data : List Int8) (rounds : ℕ) :
    pcmuBytes data rounds =
      if 2 * rounds ≤ data.length then
        some ((List.range rounds).map fun i ↦
          storedCode (data.getD (2 * i) 0) (data.getD (2 * i + 1) 0))
      else none := by
  induction rounds with
  | zero => rfl
  | succ i ih =>
    have hget {place : ℕ} (hplace : place < data.length) :
        data[place]? = some (data.getD place 0) := by
      rw [getD_eq_getElem _ _ hplace, List.getElem?_eq_getElem hplace]
    rw [pcmuBytes, ih, Nat.mul_comm i 2]
    by_cases hfits : 2 * (i + 1) ≤ data.length
    · rw [if_pos (by omega), if_pos hfits, hget (by omega), hget (by omega), range_succ, map_append]
      rfl
    rw [if_neg hfits]
    split_ifs
    · rw [List.getElem?_eq_none (Nat.le_of_lt_succ (by omega : data.length < 2 * i + 1 + 1))]
      rfl
    · rfl

/-- The array that is returned has the codes of the samples. -/
def EncodesSamples (data : List Int8) (length : ℤ) : Prop :=
  ∃ out, pcmToPcmu data length = some out ∧ 2 * out.length = length ∧
    ∀ i < out.length, out[i]? = some (sampleCode (data.getD (2 * i) 0) (data.getD (2 * i + 1) 0))

/-- An even number of bytes is encoded as it should exactly if the array has them, and the low byte
of each sample is below 128 or makes no difference. -/
theorem pcmToPcmu_iff (data : List Int8) (length : ℤ) (heven : Even length) :
    EncodesSamples data length ↔
      0 ≤ length ∧ length ≤ data.length ∧
        ∀ i : ℕ, 2 * i < length → LowByteKept (data.getD (2 * i) 0) (data.getD (2 * i + 1) 0) := by
  obtain ⟨half, rfl⟩ := heven
  have hrounds : (half + half).tdiv 2 = half := by
    rw [← Int.two_mul, Int.mul_tdiv_cancel_left _ (by decide)]
  unfold EncodesSamples pcmToPcmu
  rw [hrounds]
  rcases lt_or_ge half 0 with hneg | hpos
  · rw [if_pos hneg]
    exact iff_of_false nofun (by omega)
  obtain ⟨rounds, rfl⟩ := Int.eq_ofNat_of_zero_le hpos
  rw [if_neg (Int.not_lt.mpr hpos), Int.toNat_natCast, pcmuBytes_eq]
  by_cases hfits : 2 * rounds ≤ data.length
  · rw [if_pos hfits]
    constructor
    · rintro ⟨_, ⟨⟩, -, hcodes⟩
      refine ⟨by omega, by omega, fun i hi ↦ ?_⟩
      have hcode := hcodes i (by rw [length_map, length_range]; omega)
      rw [List.getElem?_map, List.getElem?_range (by omega), Option.map_some, Option.some_inj] at hcode
      exact (storedCode_eq_iff _ _).mp hcode
    · rintro ⟨-, -, hkept⟩
      refine ⟨_, rfl, ?_, fun i hi ↦ ?_⟩
      · rw [length_map, length_range]
        omega
      · rw [length_map, length_range] at hi
        rw [List.getElem?_map, List.getElem?_range hi, Option.map_some, Option.some_inj]
        exact (storedCode_eq_iff _ _).mpr (hkept i (by omega))
  · rw [if_neg hfits]
    exact iff_of_false nofun (by omega)

theorem pcmToPcmu_low_bytes : EncodesSamples [1, -2, 127, 5] 4 :=
  (pcmToPcmu_iff _ 4 (by decide)).mpr ⟨by decide, by decide, fun i hi ↦ by
    have hlt : i < 2 := by omega
    interval_cases i <;> exact .inl (by decide)⟩

/-- The sample 128 is encoded as -128. -/
theorem low_byte_sign_added : ¬ EncodesSamples [-128, 0] 2 := by
  rintro ⟨out, hout, -, hcodes⟩
  have hstored : out = [111] := Option.some.inj (hout.symm.trans (by decide))
  subst hstored
  exact absurd (hcodes 0 (by decide)) (by decide)

end WisCam.Audio
