import Mathlib.Algebra.Group.Nat.Defs
import Mathlib.Data.Int.Notation
import Mathlib.Data.List.TakeWhile

/-!
# Byte strings and the C string functions

The bytes of a buffer or of a C string, as a list. A C string is the part of a buffer before its
first NUL (`cstr`), so the string functions below read a list as a string that ends where the list
ends. Each has the meaning of the C library function it is named after, on 32-bit `long`.
-/

set_option autoImplicit false

namespace WisCam.Foundations

open List

/-- A sequence of unsigned bytes. -/
abbrev Bytes := List UInt8

/-- The bytes of an ASCII literal. -/
def ascii (text : String) : Bytes := text.toList.map fun c ↦ UInt8.ofNat c.toNat

/-- What is said of all bytes of a text is decided along the text, not over all bytes. -/
instance decidableForallMem {α : Type} (p : α → Prop) [DecidablePred p] (text : List α) :
    Decidable (∀ b ∈ text, p b) := text.decidableBAll p

/-! ### Character classes -/

/-- `tolower` in the C locale. -/
def lower (b : UInt8) : UInt8 := if 65 ≤ b ∧ b ≤ 90 then b + 32 else b

/-- `isdigit` in the C locale. -/
def isDigit (b : UInt8) : Bool := 48 ≤ b && b ≤ 57

/-- `isspace` in the C locale. -/
def isSpace (b : UInt8) : Bool := b == 32 || (9 ≤ b && b ≤ 13)

/-! ### Strings -/

/-- The C string at the start of a buffer. -/
def cstr (buffer : Bytes) : Bytes := buffer.takeWhile (· != 0)

/-- `strcasecmp(a, b) == 0`. -/
def sameNoCase (a b : Bytes) : Bool := a.map lower == b.map lower

theorem not_sameNoCase {a b c : Bytes} (hsame : sameNoCase a b = true)
    (hother : sameNoCase b c = false) : ¬ sameNoCase a c = true := by
  rw [sameNoCase, beq_iff_eq.mp hsame]
  exact Bool.eq_false_iff.mp hother

/-- `strncmp(a, b, n) == 0`. -/
def sameFirst (n : ℕ) (a b : Bytes) : Bool := a.take n == b.take n

/-- `strncasecmp(a, b, n) == 0`. -/
def sameFirstNoCase (n : ℕ) (a b : Bytes) : Bool := sameNoCase (a.take n) (b.take n)

/-- `strrchr`, as the index of the last occurrence. -/
def strrchr (b : UInt8) : Bytes → Option ℕ
  | [] => none
  | first :: rest =>
    match strrchr b rest with
    | some index => some (index + 1)
    | none => if first = b then some 0 else none

/-- `strstr`, as the index of the first occurrence. -/
def strstr (needle : Bytes) : Bytes → Option ℕ
  | [] => if needle = [] then some 0 else none
  | first :: rest =>
    if needle.isPrefixOf (first :: rest) then some 0 else (strstr needle rest).map (· + 1)

/-! ### Numbers in text -/

/-- The value of a string of decimal digits, read after `value`. -/
def digitsValue (value : ℕ) (digits : Bytes) : ℕ :=
  digits.foldl (fun acc b ↦ acc * 10 + (b.toNat - 48)) value

/-- A number as a 32-bit `long` can hold it: `strtol` saturates. -/
def clampLong (value : ℤ) : ℤ := max (-2147483648) (min 2147483647 value)

/-- `strtol(text, &end, 10)`, as the value and the number of bytes read. Without a digit nothing is
read. -/
def strtol (text : Bytes) : ℤ × ℕ :=
  let blanks := (text.takeWhile isSpace).length
  let signed := text.drop blanks
  let sign := if signed.head? = some 45 ∨ signed.head? = some 43 then 1 else 0
  let digits := (signed.drop sign).takeWhile isDigit
  if digits = [] then (0, 0)
  else
    let value : ℤ := digitsValue 0 digits
    (clampLong (if signed.head? = some 45 then -value else value), blanks + sign + digits.length)

/-- `%d` for a number that is not negative. -/
def decimal (value : ℕ) : Bytes := (Nat.toDigits 10 value).map fun c ↦ UInt8.ofNat c.toNat

/-- One lower-case hexadecimal digit. -/
def hexDigit (value : ℕ) : UInt8 := UInt8.ofNat (if value < 10 then 48 + value else 87 + value)

/-- `%02x`. -/
def hexByte (b : UInt8) : Bytes := [hexDigit (b.toNat / 16), hexDigit (b.toNat % 16)]

/-- A byte string printed with `%02x` for each byte. -/
def hexText (bytes : Bytes) : Bytes := bytes.flatMap hexByte

/-- `%02X`. -/
def upperHexByte (b : UInt8) : Bytes :=
  let digit := fun value : ℕ ↦ UInt8.ofNat (if value < 10 then 48 + value else 55 + value)
  [digit (b.toNat / 16), digit (b.toNat % 16)]

/-- `PUT_32`: the low 32 bits of a number, most significant byte first. -/
def put32 (value : ℕ) : Bytes :=
  [UInt8.ofNat (value / 16777216), UInt8.ofNat (value / 65536), UInt8.ofNat (value / 256),
    UInt8.ofNat value]

/-- `PUT_16`: the low 16 bits of a number, most significant byte first. -/
def put16 (value : ℕ) : Bytes := [UInt8.ofNat (value / 256), UInt8.ofNat value]

/-- `GET_16`: two bytes, most significant byte first. -/
def get16 (high low : UInt8) : ℕ := high.toNat * 256 + low.toNat

/-- Four bytes as an unsigned number, most significant byte first. -/
def get32 (b₃ b₂ b₁ b₀ : UInt8) : ℕ :=
  b₃.toNat * 16777216 + b₂.toNat * 65536 + b₁.toNat * 256 + b₀.toNat

/-! ### Facts about the string functions -/

theorem nul_notMem_cstr (buffer : Bytes) : (0 : UInt8) ∉ cstr buffer := by
  intro hzero
  have hne := mem_takeWhile_imp hzero
  exact absurd hne (by decide)

theorem cstr_eq_self {text : Bytes} (htext : (0 : UInt8) ∉ text) : cstr text = text := by
  refine takeWhile_eq_self_iff.mpr fun b hb ↦ ?_
  simp only [bne_iff_ne, ne_eq]
  intro hzero
  exact htext (hzero ▸ hb)

theorem isSpace_of_isDigit {b : UInt8} (hdigit : isDigit b = true) : isSpace b = false := by
  simp only [isDigit, Bool.and_eq_true, decide_eq_true_eq, UInt8.le_iff_toNat_le] at hdigit
  simp only [isSpace, Bool.or_eq_false_iff, Bool.and_eq_false_iff, decide_eq_false_iff_not,
    beq_eq_false_iff_ne, UInt8.le_iff_toNat_le, ne_eq, ← UInt8.toNat_inj]
  simp at *
  omega

theorem put16_get16 (high low : UInt8) : put16 (get16 high low) = [high, low] := by
  have hlow := low.toNat_lt
  have hhigh : (high.toNat * 256 + low.toNat) / 256 = high.toNat := by omega
  have hcut : UInt8.ofNat (high.toNat * 256 + low.toNat) = low := by
    apply UInt8.toNat_inj.mp
    rw [UInt8.toNat_ofNat']
    omega
  rw [put16, get16, hhigh, hcut, UInt8.ofNat_toNat]

theorem get16_put16 {value : ℕ} (hvalue : value < 65536) :
    get16 (UInt8.ofNat (value / 256)) (UInt8.ofNat value) = value := by
  rw [get16, UInt8.toNat_ofNat', UInt8.toNat_ofNat']
  omega

theorem put16_mod (value : ℕ) : put16 (value % 65536) = put16 value := by
  have hcut {a b : ℕ} (hab : a % 256 = b % 256) : UInt8.ofNat a = UInt8.ofNat b := by
    apply UInt8.toNat_inj.mp
    rw [UInt8.toNat_ofNat', UInt8.toNat_ofNat']
    exact hab
  rw [put16, put16, hcut (show value % 65536 / 256 % 256 = value / 256 % 256 by omega),
    hcut (show value % 65536 % 256 = value % 256 by omega)]

theorem get32_put32 (value : ℕ) :
    get32 (UInt8.ofNat (value / 16777216)) (UInt8.ofNat (value / 65536))
      (UInt8.ofNat (value / 256)) (UInt8.ofNat value) = value % 4294967296 := by
  simp only [get32, UInt8.toNat_ofNat']
  omega

/-- The low byte of an int. -/
theorem toNat_ofInt (value : ℤ) : ((UInt8.ofInt value).toNat : ℤ) = value % 256 := by
  rw [UInt8.ofInt, UInt8.toNat_ofNat']
  omega

theorem lt_length_of_strrchr {b : UInt8} {text : Bytes} {index : ℕ}
    (hfound : strrchr b text = some index) : index < text.length := by
  induction text generalizing index with
  | nil => exact absurd hfound nofun
  | cons first rest ih =>
    rw [strrchr] at hfound
    cases hrest : strrchr b rest with
    | some later =>
      rw [hrest] at hfound
      rw [← Option.some.inj hfound]
      exact Nat.succ_lt_succ (ih hrest)
    | none =>
      rw [hrest] at hfound
      dsimp only at hfound
      split_ifs at hfound
      rw [← Option.some.inj hfound]
      exact Nat.succ_pos _

/-- `strstr` finds the first place where the needle stands. -/
theorem strstr_eq_some_iff {needle text : Bytes} {index : ℕ} (hneedle : needle ≠ []) :
    strstr needle text = some index ↔
      needle <+: text.drop index ∧ ∀ before < index, ¬ needle <+: text.drop before := by
  induction text generalizing index with
  | nil =>
    rw [strstr, if_neg hneedle]
    refine iff_of_false nofun fun h ↦ hneedle ?_
    simpa using h.1
  | cons first rest ih =>
    rw [strstr]
    by_cases hhere : needle.isPrefixOf (first :: rest) = true
    · rw [if_pos hhere]
      rw [List.isPrefixOf_iff_prefix] at hhere
      constructor
      · rintro h
        obtain rfl := Option.some.inj h
        exact ⟨hhere, fun _ h ↦ absurd h (Nat.not_lt_zero _)⟩
      · rintro ⟨-, hnone⟩
        rcases Nat.eq_zero_or_pos index with rfl | hpos
        · rfl
        · exact absurd hhere (hnone 0 hpos)
    · rw [if_neg hhere]
      rw [List.isPrefixOf_iff_prefix] at hhere
      cases index with
      | zero =>
        refine iff_of_false ?_ fun h ↦ hhere h.1
        cases strstr needle rest <;> exact nofun
      | succ index =>
        rw [Option.map_eq_some_iff]
        simp only [Nat.add_right_cancel_iff, exists_eq_right, ih, drop_succ_cons]
        refine and_congr_right fun _ ↦
          ⟨fun hnone before hbefore ↦ ?_, fun hnone before hbefore ↦ ?_⟩
        · cases before with
          | zero => exact hhere
          | succ before => exact hnone before (Nat.lt_of_succ_lt_succ hbefore)
        · exact hnone (before + 1) (Nat.succ_lt_succ hbefore)

theorem strstr_eq_none_iff {needle text : Bytes} (hneedle : needle ≠ []) :
    strstr needle text = none ↔ ∀ index, ¬ needle <+: text.drop index := by
  constructor
  · intro hnone index hfound
    induction text generalizing index with
    | nil => exact hneedle (by simpa using hfound)
    | cons first rest ih =>
      rw [strstr] at hnone
      split_ifs at hnone with hhere
      cases index with
      | zero => exact hhere (List.isPrefixOf_iff_prefix.mpr hfound)
      | succ index => exact ih (Option.map_eq_none_iff.mp hnone) index hfound
  · intro hnone
    cases hfound : strstr needle text with
    | none => rfl
    | some index => exact absurd ((strstr_eq_some_iff hneedle).mp hfound).1 (hnone index)

/-- `strstr(text, needle) == text`. -/
theorem strstr_eq_zero_iff {needle text : Bytes} :
    strstr needle text = some 0 ↔ needle <+: text := by
  cases text with
  | nil =>
    rw [strstr, prefix_nil]
    split <;> simp [*]
  | cons first rest =>
    rw [strstr, ← List.isPrefixOf_iff_prefix]
    split
    · simp [*]
    · simp [*]

/-- No occurrence of a text starts at a byte that is not its first. -/
theorem strstr_skip {first : UInt8} {tail front : Bytes} (hfront : first ∉ front) (back : Bytes) :
    strstr (first :: tail) (front ++ back) =
      (strstr (first :: tail) back).map (· + front.length) := by
  induction front with
  | nil => simp
  | cons b front ih =>
    rw [mem_cons, not_or] at hfront
    have hhere : ¬ (first :: tail).isPrefixOf (b :: (front ++ back)) = true := by
      rw [List.isPrefixOf_iff_prefix, cons_prefix_cons]
      exact fun h ↦ hfront.1 h.1
    rw [cons_append, strstr, if_neg hhere, ih hfront.2, Option.map_map]
    rfl

/-! ### Decimal numbers -/

def decimalDigit (value : ℕ) : UInt8 := UInt8.ofNat (48 + value)

theorem toNat_decimalDigit {value : ℕ} (hvalue : value < 10) :
    (decimalDigit value).toNat = 48 + value := by
  rw [decimalDigit, UInt8.toNat_ofNat']
  omega

theorem isDigit_decimalDigit {value : ℕ} (hvalue : value < 10) :
    isDigit (decimalDigit value) = true := by
  have hlow : (48 : UInt8) ≤ decimalDigit value := by
    rw [UInt8.le_iff_toNat_le, toNat_decimalDigit hvalue]
    exact Nat.le_add_right 48 value
  have hhigh : decimalDigit value ≤ 57 := by
    rw [UInt8.le_iff_toNat_le, toNat_decimalDigit hvalue]
    exact Nat.add_le_add_left (Nat.le_of_lt_succ hvalue) 48
  simp [isDigit, hlow, hhigh]

theorem ofNat_digitChar {value : ℕ} (hvalue : value < 10) :
    UInt8.ofNat (Nat.digitChar value).toNat = decimalDigit value := by
  revert value
  decide

theorem decimal_of_lt {value : ℕ} (hvalue : value < 10) : decimal value = [decimalDigit value] := by
  rw [decimal, Nat.toDigits_of_lt_base hvalue, map_singleton, ofNat_digitChar hvalue]

theorem decimal_of_le {value : ℕ} (hvalue : 10 ≤ value) :
    decimal value = decimal (value / 10) ++ [decimalDigit (value % 10)] := by
  rw [decimal, Nat.toDigits_of_base_le (by decide) hvalue, map_append, map_singleton,
    ofNat_digitChar (Nat.mod_lt _ (by decide))]
  rfl

theorem decimal_ne_nil (value : ℕ) : decimal value ≠ [] := by
  by_cases hvalue : value < 10
  · rw [decimal_of_lt hvalue]
    exact cons_ne_nil _ _
  · rw [decimal_of_le (Nat.not_lt.mp hvalue)]
    exact append_ne_nil_of_right_ne_nil _ (cons_ne_nil _ _)

theorem isDigit_of_mem_decimal {value : ℕ} {b : UInt8} (hb : b ∈ decimal value) :
    isDigit b = true := by
  induction value using Nat.strong_induction_on with
  | _ value ih =>
    by_cases hvalue : value < 10
    · rw [decimal_of_lt hvalue, mem_singleton] at hb
      rw [hb, isDigit_decimalDigit hvalue]
    · rw [decimal_of_le (Nat.not_lt.mp hvalue), mem_append, mem_singleton] at hb
      rcases hb with hb | rfl
      · exact ih (value / 10) (by omega) hb
      · exact isDigit_decimalDigit (Nat.mod_lt _ (by decide))

/-- Reading the digits of a number gives the number. -/
theorem digitsValue_decimal (value : ℕ) : digitsValue 0 (decimal value) = value := by
  induction value using Nat.strong_induction_on with
  | _ value ih =>
    by_cases hvalue : value < 10
    · rw [decimal_of_lt hvalue]
      change 0 * 10 + ((decimalDigit value).toNat - 48) = value
      rw [toNat_decimalDigit hvalue]
      omega
    · have hdigit : value % 10 < 10 := Nat.mod_lt _ (by decide)
      rw [decimal_of_le (Nat.not_lt.mp hvalue), digitsValue, foldl_append]
      change digitsValue 0 (decimal (value / 10)) * 10 + ((decimalDigit (value % 10)).toNat - 48) =
        value
      rw [ih (value / 10) (by omega), toNat_decimalDigit hdigit]
      omega

end WisCam.Foundations
