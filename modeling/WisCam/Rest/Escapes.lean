import WisCam.Rest.Request

/-!
# Percent escapes, decoded in place

`unescape` replaces the escapes of a string in the memory of the string. The memory ends with the
terminator, so that an access beyond it is a fault. The read index runs ahead of the write index,
and the test before an escape lets a sign through that has one character after it: the terminator
is then read in place of the second digit, and is not one.

`unescape_decodes` says that this computes the percent-decoding. A decoded NUL ends the string for
its readers, so a text is restored as a string if it has none.
-/

set_option autoImplicit false

namespace WisCam.Rest

open Foundations List

/-! ### The loop -/

/-- The read `string[i]`. -/
def charAt (string : Bytes) (i : ℕ) : Except Fault UInt8 :=
  match string[i]? with
  | some b => .ok b
  | none => .error .stray

/-- The store `string[i] = b`. -/
def putChar (string : Bytes) (i : ℕ) (b : UInt8) : Except Fault Bytes :=
  if i < string.length then .ok (string.set i b) else .error .overflow

/-- The loop of `unescape` and what follows it: the result and the memory. -/
def unescapeLoop (length src dst : ℕ) (string : Bytes) : Except Fault (ℤ × Bytes) :=
  if src < length then do
    let b ← charAt string src
    if b ≠ 37 then
      let string ← putChar string dst b
      unescapeLoop length (src + 1) (dst + 1) string
    else if length < src + 2 then return (-1, string)
    else
      match hexCharToInt (← charAt string (src + 1)) with
      | none => return (-1, string)
      | some high =>
        let string ← putChar string dst (high * 16)
        match hexCharToInt (← charAt string (src + 2)) with
        | none => return (-1, string)
        | some low =>
          let string ← putChar string dst ((← charAt string dst) + low)
          unescapeLoop length (src + 2 + 1) (dst + 1) string
  else do
    let string ← putChar string dst 0
    return (0, string)
termination_by length - src

/-- `unescape`, in the memory of a string. -/
def unescapeInPlace (string : Bytes) : Except Fault (ℤ × Bytes) :=
  unescapeLoop (cstr string).length 0 0 string

/-! ### What the escapes stand for -/

/-- The character is the hexadecimal digit of this value, in either letter case. -/
def IsDigit (b : UInt8) (value : ℕ) : Prop :=
  (ascii "0123456789abcdef")[value]? = some b ∨ (ascii "0123456789ABCDEF")[value]? = some b

instance (b : UInt8) (value : ℕ) : Decidable (IsDigit b value) := instDecidableOr

/-- `hex_char_to_int` has no other digits, -/
theorem isDigit_of_hexCharToInt {b v : UInt8} (hvalue : hexCharToInt b = some v) :
    IsDigit b v.toNat := by
  have hall : ∀ n < 256, ∀ v ∈ hexCharToInt (UInt8.ofNat n), IsDigit (UInt8.ofNat n) v.toNat := by
    decide +kernel
  have hdigit := hall b.toNat b.toNat_lt v
  rw [UInt8.ofNat_toNat] at hdigit
  exact hdigit hvalue

/-- and it has these with their values. -/
theorem IsDigit.hexCharToInt_eq {b : UInt8} {value : ℕ} (hdigit : IsDigit b value) :
    hexCharToInt b = some (UInt8.ofNat value) := by
  have hread {text : Bytes} (hget : text[value]? = some b) (hall : ∀ n < text.length,
      text[n]?.bind hexCharToInt = some (UInt8.ofNat n)) :
      hexCharToInt b = some (UInt8.ofNat value) := by
    obtain ⟨hlt, -⟩ := List.getElem?_eq_some_iff.mp hget
    have hvalue := hall value hlt
    rwa [hget, Option.bind_some] at hvalue
  rcases hdigit with hlower | hupper
  · exact hread hlower (by decide)
  · exact hread hupper (by decide)

theorem isSome_hexCharToInt_iff {b : UInt8} :
    (hexCharToInt b).isSome ↔ ∃ value, IsDigit b value := by
  rw [Option.isSome_iff_exists]
  exact ⟨fun ⟨v, hv⟩ ↦ ⟨_, isDigit_of_hexCharToInt hv⟩, fun ⟨_, hdigit⟩ ↦ ⟨_, hdigit.hexCharToInt_eq⟩⟩

theorem byte_of_digits (h l : UInt8) : UInt8.ofNat (16 * h.toNat + l.toNat) = h * 16 + l := by
  rw [UInt8.ofNat_add, UInt8.ofNat_mul, UInt8.ofNat_toNat, UInt8.ofNat_toNat, UInt8.mul_comm]
  rfl

/-- Every percent sign that starts an escape is followed by two hexadecimal digits. -/
def WellEscaped : Bytes → Prop
  | [] => True
  | 37 :: high :: low :: rest =>
    (∃ value, IsDigit high value) ∧ (∃ value, IsDigit low value) ∧ WellEscaped rest
  | 37 :: _ => False
  | _ :: rest => WellEscaped rest

/-- The string is a percent-encoding of the text, and the text its percent-decoding: each escape
stands for the byte with these digits, of either letter case, and only the percent sign has to be
escaped. -/
inductive Encodes : Bytes → Bytes → Prop
  | nil : Encodes [] []
  | plain {b : UInt8} {text string : Bytes} (hplain : b ≠ 37) (hrest : Encodes text string) :
      Encodes (b :: text) (b :: string)
  | escaped {high low : UInt8} {h l : ℕ} {text string : Bytes} (hhigh : IsDigit high h)
      (hlow : IsDigit low l) (hrest : Encodes text string) :
      Encodes (UInt8.ofNat (16 * h + l) :: text) (37 :: high :: low :: string)

theorem unescape_plain {b : UInt8} (hplain : b ≠ 37) (rest : Bytes) :
    unescape (b :: rest) = (unescape rest).map (b :: ·) := by
  conv_lhs => unfold unescape
  exact if_neg hplain

theorem isSome_unescape_iff (string : Bytes) : (unescape string).isSome ↔ WellEscaped string := by
  fun_induction WellEscaped string with
  | case1 => simp [unescape]
  | case2 high low rest ih =>
    rw [unescape, if_pos rfl, ← ih, ← isSome_hexCharToInt_iff, ← isSome_hexCharToInt_iff]
    cases hexCharToInt high <;> cases hexCharToInt low <;> simp
  | case3 rest hshort =>
    rw [unescape, if_pos rfl]
    · exact iff_of_false nofun id
    · exact hshort
  | case4 b rest _ hplain ih =>
    rw [unescape_plain hplain, Option.isSome_map, ih]

theorem unescape_eq_some_iff {text string : Bytes} :
    unescape string = some text ↔ Encodes text string := by
  constructor
  · intro hdecoded
    induction string using unescape.induct generalizing text with
    | case1 =>
      cases hdecoded
      exact .nil
    | case2 high low more h l hlow hhigh ih =>
      rw [unescape, if_pos rfl, hhigh, hlow] at hdecoded
      obtain ⟨rest, hrest, rfl⟩ := Option.map_eq_some_iff.mp hdecoded
      rw [← byte_of_digits]
      exact .escaped (isDigit_of_hexCharToInt hhigh) (isDigit_of_hexCharToInt hlow) (ih hrest)
    | case3 high low more hnone =>
      rw [unescape, if_pos rfl] at hdecoded
      split at hdecoded
      · rename_i h l hhigh hlow
        exact (hnone h l hhigh hlow).elim
      · cases hdecoded
    | case4 rest hshort =>
      rw [unescape, if_pos rfl] at hdecoded
      · cases hdecoded
      · exact hshort
    | case5 b rest hplain ih =>
      rw [unescape_plain hplain] at hdecoded
      obtain ⟨rest, hrest, rfl⟩ := Option.map_eq_some_iff.mp hdecoded
      exact .plain hplain (ih hrest)
  · intro hencodes
    induction hencodes with
    | nil => rfl
    | plain hplain _ ih => rw [unescape_plain hplain, ih, Option.map_some]
    | escaped hhigh hlow _ ih =>
      rw [unescape, if_pos rfl, hhigh.hexCharToInt_eq, hlow.hexCharToInt_eq, ih]
      simp [UInt8.mul_comm]

/-! ### One access -/

section Access

variable {string rest : Bytes} {src dst : ℕ} {b : UInt8}

theorem charAt_of_drop (hdrop : string.drop src = b :: rest) : charAt string src = .ok b := by
  have hget : string[src]? = some b := by
    rw [← Nat.add_zero src, ← List.getElem?_drop, hdrop, List.getElem?_cons_zero]
  rw [charAt, hget]

theorem drop_succ_of_drop (hdrop : string.drop src = b :: rest) : string.drop (src + 1) = rest := by
  rw [← drop_drop, hdrop, drop_one, tail_cons]

/-- A store behind the read index is made, and leaves what is still to be read. -/
theorem putChar_behind (hbehind : dst ≤ src) (hdrop : string.drop src = b :: rest) (stored : UInt8) :
    putChar string dst stored = .ok (string.set dst stored) ∧
      (string.set dst stored).take (dst + 1) = string.take dst ++ [stored] ∧
      ∀ later > src, (string.set dst stored).drop later = string.drop later := by
  have hlt : src < string.length := by
    have := congrArg List.length hdrop
    rw [length_drop, length_cons] at this
    omega
  refine ⟨if_pos (hbehind.trans_lt hlt), ?_, fun later hlater ↦ ?_⟩
  · rw [set_eq_take_append_cons_drop, if_pos (hbehind.trans_lt hlt), take_append,
      length_take_of_le (hbehind.trans hlt.le), Nat.add_sub_cancel_left,
      take_of_length_le (by rw [length_take]; omega)]
    rfl
  · exact drop_set_of_lt (hbehind.trans_lt hlater)

end Access

/-! ### The decoded string -/

/-- What the loop leaves of the memory from the write index on. -/
def Leaves (dst : ℕ) (string : Bytes) (decoded : Option Bytes)
    (result : Except Fault (ℤ × Bytes)) : Prop :=
  ∃ string', string'.length = string.length ∧
    match decoded with
    | some text => result = .ok (0, string') ∧
        string'.take (dst + text.length + 1) = string.take dst ++ (text ++ [0])
    | none => result = .ok (-1, string')

/-- A byte that is stored stands before what the rest of the loop leaves. -/
theorem Leaves.step {dst : ℕ} {string : Bytes} {b : UInt8} {decoded : Option Bytes}
    {result : Except Fault (ℤ × Bytes)}
    (htake : (string.set dst b).take (dst + 1) = string.take dst ++ [b])
    (hleaves : Leaves (dst + 1) (string.set dst b) decoded result) :
    Leaves dst string (decoded.map (b :: ·)) result := by
  obtain ⟨string', hlength, hrest⟩ := hleaves
  refine ⟨string', hlength.trans length_set, ?_⟩
  cases decoded with
  | none => exact hrest
  | some text =>
    obtain ⟨hret, htext⟩ := hrest
    rw [htake, append_assoc] at htext
    refine ⟨hret, .trans ?_ htext⟩
    rw [length_cons, Nat.add_comm text.length, ← Nat.add_assoc]

/-- A sign with two characters after it, of which the second can be the terminator. -/
theorem unescapeLoop_escape {length src dst : ℕ} {string rest : Bytes} {high low : UInt8}
    (henough : src + 2 ≤ length) (hbehind : dst ≤ src)
    (hdrop : string.drop src = 37 :: high :: low :: rest) :
    unescapeLoop length src dst string =
      match hexCharToInt high, hexCharToInt low with
      | none, _ => .ok (-1, string)
      | some h, none => .ok (-1, string.set dst (h * 16))
      | some h, some l => unescapeLoop length (src + 2 + 1) (dst + 1) (string.set dst (h * 16 + l)) := by
  have hhigh := drop_succ_of_drop hdrop
  have hlow := drop_succ_of_drop hhigh
  rw [unescapeLoop, if_pos (by omega), charAt_of_drop hdrop, ok_bind, if_neg (not_not.mpr rfl),
    if_neg (Nat.not_lt.mpr henough), charAt_of_drop hhigh, ok_bind]
  cases hexCharToInt high with
  | none => rfl
  | some h =>
    obtain ⟨hput, -, hkept⟩ := putChar_behind hbehind hdrop (h * 16)
    dsimp only
    rw [hput, ok_bind, charAt_of_drop ((hkept _ (by omega)).trans hlow), ok_bind]
    cases hexCharToInt low with
    | none => rfl
    | some l =>
      have hlt : dst < string.length := by
        by_contra hout
        rw [putChar, if_neg hout] at hput
        cases hput
      have hsum : charAt (string.set dst (h * 16)) dst = .ok (h * 16) := by
        rw [charAt, List.getElem?_set_self hlt]
      dsimp only
      rw [hsum, ok_bind, putChar, if_pos (by rwa [length_set]), ok_bind, set_set]

theorem unescapeLoop_leaves {length src dst : ℕ} {string rest : Bytes}
    (hlength : src + rest.length = length) (hbehind : dst ≤ src)
    (hdrop : string.drop src = rest ++ [0]) :
    Leaves dst string (unescape rest) (unescapeLoop length src dst string) := by
  induction rest using unescape.induct generalizing src dst string with
  | case1 =>
    obtain ⟨hput, htake, -⟩ := putChar_behind hbehind hdrop 0
    rw [unescapeLoop, if_neg (by rw [← hlength]; exact Nat.lt_irrefl _), hput]
    exact ⟨_, length_set, rfl, htake⟩
  | case2 high low more h l hlow hhigh ih =>
    obtain ⟨-, htake, hkept⟩ := putChar_behind hbehind hdrop (h * 16 + l)
    rw [unescapeLoop_escape (by simp at hlength; omega) hbehind hdrop, unescape, if_pos rfl, hhigh,
      hlow]
    refine (ih ?_ (by omega) ?_).step htake
    · simp only [length_cons] at hlength
      omega
    · rw [hkept _ (by omega)]
      exact drop_succ_of_drop (drop_succ_of_drop (drop_succ_of_drop hdrop))
  | case3 high low more hnone =>
    rw [unescapeLoop_escape (by simp at hlength; omega) hbehind hdrop, unescape, if_pos rfl]
    cases hhigh : hexCharToInt high with
    | none => exact ⟨_, rfl, rfl⟩
    | some h =>
      cases hlow : hexCharToInt low with
      | none => exact ⟨_, length_set, rfl⟩
      | some l => exact (hnone h l hhigh hlow).elim
  | case4 rest hshort =>
    rw [unescape, if_pos rfl]
    · match rest with
      | [] =>
        rw [unescapeLoop, if_pos (by simp at hlength; omega), charAt_of_drop hdrop, ok_bind,
          if_neg (not_not.mpr rfl), if_pos (by simp at hlength; omega)]
        exact ⟨_, rfl, rfl⟩
      | [high] =>
        have hnul : hexCharToInt 0 = none := rfl
        rw [unescapeLoop_escape (by simp at hlength; omega) hbehind hdrop, hnul]
        cases hexCharToInt high with
        | none => exact ⟨_, rfl, rfl⟩
        | some h => exact ⟨_, length_set, rfl⟩
      | high :: low :: more => exact (hshort high low more rfl).elim
    · exact hshort
  | case5 b rest hplain ih =>
    obtain ⟨hput, htake, hkept⟩ := putChar_behind hbehind hdrop b
    rw [unescapeLoop, if_pos (by simp at hlength; omega), charAt_of_drop hdrop, ok_bind,
      if_pos hplain, hput, ok_bind, unescape_plain hplain]
    refine (ih ?_ (by omega) ?_).step htake
    · simp only [length_cons] at hlength
      omega
    · rw [hkept _ (by omega)]
      exact drop_succ_of_drop hdrop

/-- On the memory of a string, `unescape` returns and touches nothing beyond the terminator. It
returns 0 exactly if the escapes are well formed, and then the percent-decoding and a NUL stand at
the start of the memory. Every percent-encoding of a text without NUL gives the text back. -/
theorem unescape_decodes (string : Bytes) (hstring : (0 : UInt8) ∉ string) :
    ∃ ret memory, unescapeInPlace (string ++ [0]) = .ok (ret, memory) ∧
      memory.length = string.length + 1 ∧ (ret = 0 ↔ WellEscaped string) ∧
      (ret = 0 → ∃ text, Encodes text string ∧ text ++ [0] <+: memory) ∧
      ∀ text, (0 : UInt8) ∉ text → Encodes text string → ret = 0 ∧ cstr memory = text := by
  have hcstr : cstr (string ++ [0]) = string :=
    (cstr_append hstring [0]).trans (append_nil string)
  have hwell := isSome_unescape_iff string
  obtain ⟨memory, hlength, hrest⟩ := @unescapeLoop_leaves string.length 0 0 (string ++ [0]) string
    (Nat.zero_add _) (Nat.le_refl _) rfl
  rw [length_append, length_singleton] at hlength
  rw [unescapeInPlace, hcstr]
  cases hdecoded : unescape string with
  | none =>
    rw [hdecoded] at hrest hwell
    refine ⟨-1, memory, hrest, hlength, iff_of_false (by decide) ?_, fun h ↦ absurd h (by decide), ?_⟩
    · exact fun h ↦ absurd (hwell.mpr h) nofun
    · exact fun text _ hencodes ↦
        absurd ((unescape_eq_some_iff.mpr hencodes).symm.trans hdecoded) nofun
  | some decoded =>
    rw [hdecoded] at hrest hwell
    obtain ⟨hret, htake⟩ := hrest
    have hprefix : decoded ++ [0] <+: memory := htake ▸ List.take_prefix _ _
    refine ⟨0, memory, hret, hlength, iff_of_true rfl (hwell.mp rfl), fun _ ↦ ?_, ?_⟩
    · exact ⟨decoded, unescape_eq_some_iff.mp hdecoded, hprefix⟩
    · intro text htext hencodes
      obtain rfl := Option.some.inj ((unescape_eq_some_iff.mpr hencodes).symm.trans hdecoded)
      obtain ⟨follow, rfl⟩ := hprefix
      refine ⟨rfl, ?_⟩
      rw [append_assoc, cstr_append htext]
      exact append_nil text

theorem unescape_decodes_slash :
    ∃ ret memory, unescapeInPlace (ascii "%2fa" ++ [0]) = .ok (ret, memory) ∧
      ret = 0 ∧ cstr memory = ascii "/a" := by
  obtain ⟨ret, memory, hrun, -, -, -, hrestored⟩ := unescape_decodes (ascii "%2fa") (by decide)
  exact ⟨ret, memory, hrun, hrestored (ascii "/a") (by decide)
    (.escaped (h := 2) (l := 15) (by decide) (by decide) (.plain (by decide) .nil))⟩

end WisCam.Rest
