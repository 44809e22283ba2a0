import Mathlib.Data.List.Basic
import Mathlib.Data.List.Count
import Mathlib.Order.Lattice
import WisCam.Foundations.Bytes

/-!
# JSON texts

A reader for JSON texts in UTF-8. Each part of the reader takes a text and returns what it has read
with the rest of the text. Values nest at most as deep as the text is long, and a sequence has at
most as many items as the text has bytes, so these numbers serve as fuel.

A text in quotes stands for itself exactly if it is plain, that is, has no quote, no backslash and
no control character (`stringBody_plain`, `isPlain_of_stringBody`). The second direction holds
whatever follows the closing quote: an escape makes the decoded text shorter than what was read, and
a quote that was read as part of the text makes it have more quotes. `reads_value` counts the quotes
of a whole value in this way.
-/

set_option autoImplicit false

namespace WisCam.Foundations

open List

/-- JSON values. A number is kept as it is written, and strings are decoded. -/
inductive Json
  | null
  | bool (b : Bool)
  | number (text : Bytes)
  | string (text : Bytes)
  | array (elements : List Json)
  | object (members : List (Bytes × Json))
deriving Repr

namespace Json

/-! ### UTF-8 -/

/-- Where a reader of UTF-8 stands: between characters, or the bytes that it expects. -/
inductive Utf8State
  | start
  | tail1
  | tail2
  | tail3
  | afterE0
  | afterED
  | afterF0
  | afterF4
deriving DecidableEq, Repr

/-- The first byte of a character. -/
def utf8First (b : UInt8) : Option Utf8State :=
  if b < 0x80 then some .start
  else if 0xC2 ≤ b ∧ b ≤ 0xDF then some .tail1
  else if b = 0xE0 then some .afterE0
  else if b = 0xED then some .afterED
  else if 0xE1 ≤ b ∧ b ≤ 0xEF then some .tail2
  else if b = 0xF0 then some .afterF0
  else if 0xF1 ≤ b ∧ b ≤ 0xF3 then some .tail3
  else if b = 0xF4 then some .afterF4
  else none

/-- A further byte of a character. -/
def utf8Tail (low high b : UInt8) (next : Utf8State) : Option Utf8State :=
  if low ≤ b ∧ b ≤ high then some next else none

def utf8Step (state : Utf8State) (b : UInt8) : Option Utf8State :=
  match state with
  | .start => utf8First b
  | .tail1 => utf8Tail 0x80 0xBF b .start
  | .tail2 => utf8Tail 0x80 0xBF b .tail1
  | .tail3 => utf8Tail 0x80 0xBF b .tail2
  | .afterE0 => utf8Tail 0xA0 0xBF b .tail1
  | .afterED => utf8Tail 0x80 0x9F b .tail1
  | .afterF0 => utf8Tail 0x90 0xBF b .tail2
  | .afterF4 => utf8Tail 0x80 0x8F b .tail2

/-- The text is a sequence of characters in UTF-8. -/
def isUtf8 (text : Bytes) : Bool := text.foldlM utf8Step .start == some .start

variable {b : UInt8}

theorem utf8Tail_ascii {low high : UInt8} (next : Utf8State) (hb : b < 0x80) (hlow : 0x80 ≤ low) :
    utf8Tail low high b next = none :=
  if_neg fun hwithin ↦ UInt8.not_le.mpr (UInt8.lt_of_lt_of_le hb hlow) hwithin.1

/-- An ASCII byte stands between characters. -/
theorem isUtf8_cut {front rest : Bytes} {b : UInt8} (hb : b < 0x80) :
    isUtf8 (front ++ b :: rest) = (isUtf8 front && isUtf8 rest) := by
  rw [isUtf8, isUtf8, isUtf8, foldlM_append]
  cases front.foldlM utf8Step Utf8State.start with
  | none => rfl
  | some state =>
    rw [Option.bind_eq_bind, Option.bind_some, foldlM_cons]
    have hstep : utf8Step state b = if state = .start then some .start else none := by
      cases state with
      | start => exact if_pos hb
      | tail1 | tail2 | tail3 | afterED | afterF4 =>
        exact utf8Tail_ascii _ hb (UInt8.le_refl _)
      | afterE0 | afterF0 => exact utf8Tail_ascii _ hb (by decide)
    rw [hstep]
    by_cases hstate : state = .start
    · rw [if_pos hstate, hstate]
      rfl
    · rw [if_neg hstate]
      have hopen : (some state == some Utf8State.start) = false := by simpa using hstate
      rw [hopen]
      rfl

theorem isUtf8_cons {rest : Bytes} (hb : b < 0x80) : isUtf8 (b :: rest) = isUtf8 rest := by
  have hcut := @isUtf8_cut [] rest b hb
  rwa [nil_append] at hcut

/-- ASCII bytes at the start of a text. -/
theorem isUtf8_ascii_append {front : Bytes} (hfront : ∀ b ∈ front, b < 0x80) (rest : Bytes) :
    isUtf8 (front ++ rest) = isUtf8 rest := by
  induction front with
  | nil => rfl
  | cons b front ih =>
    obtain ⟨hb, hfront⟩ := forall_mem_cons.mp hfront
    rw [cons_append, isUtf8_cons hb, ih hfront]

variable {middle : Bytes}

/-- ASCII bytes between two texts. -/
theorem isUtf8_between {front rest : Bytes} (hne : middle ≠ []) (hmiddle : ∀ b ∈ middle, b < 0x80) :
    isUtf8 (front ++ (middle ++ rest)) = (isUtf8 front && isUtf8 rest) := by
  obtain ⟨b, middle, rfl⟩ := exists_cons_of_ne_nil hne
  obtain ⟨hb, hmiddle⟩ := forall_mem_cons.mp hmiddle
  rw [cons_append, isUtf8_cut hb, isUtf8_ascii_append hmiddle]

/-! ### Strings -/

def hexDigit (b : UInt8) : Option ℕ :=
  if 48 ≤ b ∧ b ≤ 57 then some (b.toNat - 48)
  else if 97 ≤ b ∧ b ≤ 102 then some (b.toNat - 87)
  else if 65 ≤ b ∧ b ≤ 70 then some (b.toNat - 55)
  else none

def hexUnit : Bytes → Option (ℕ × Bytes)
  | a :: b :: c :: d :: rest => do
    let a ← hexDigit a
    let b ← hexDigit b
    let c ← hexDigit c
    let d ← hexDigit d
    some (((a * 16 + b) * 16 + c) * 16 + d, rest)
  | _ => none

/-- The character with a number. What is no character is replaced by U+FFFD. -/
def character (n : ℕ) : Bytes :=
  String.utf8EncodeChar (if n.isValidChar then Char.ofNat n else Char.ofNat 0xFFFD)

/-- The second half of a surrogate pair. -/
def lowSurrogate : Bytes → Option (ℕ × Bytes)
  | a :: b :: rest =>
    if a = 92 ∧ b = 117 then do
      let (unit, rest) ← hexUnit rest
      if 0xDC00 ≤ unit ∧ unit < 0xE000 then some (unit, rest) else none
    else none
  | _ => none

/-- What comes after `\u`. -/
def unicodeEscape (text : Bytes) : Option (Bytes × Bytes) := do
  let (unit, rest) ← hexUnit text
  if 0xD800 ≤ unit ∧ unit < 0xDC00 then
    match lowSurrogate rest with
    | some (low, rest) => some (character (0x10000 + (unit - 0xD800) * 0x400 + (low - 0xDC00)), rest)
    | none => some (character unit, rest)
  else some (character unit, rest)

/-- The escapes of one letter. -/
def escapes : List (UInt8 × UInt8) :=
  [(34, 34), (92, 92), (47, 47), (98, 8), (102, 12), (110, 10), (114, 13), (116, 9)]

/-- What comes after a backslash. -/
def escape : Bytes → Option (Bytes × Bytes)
  | [] => none
  | b :: rest =>
    if b = 117 then unicodeEscape rest
    else (escapes.lookup b).map fun decoded ↦ ([decoded], rest)

/-- The characters of a string up to the closing quote. -/
def chars : ℕ → Bytes → Option (Bytes × Bytes)
  | 0, _ => none
  | _ + 1, [] => none
  | fuel + 1, b :: rest =>
    if b = 34 then some ([], rest)
    else if b = 92 then do
      let (decoded, rest) ← escape rest
      let (text, rest) ← chars fuel rest
      some (decoded ++ text, rest)
    else if b < 32 then none
    else do
      let (text, rest) ← chars fuel rest
      some (b :: text, rest)

/-- What comes after the opening quote of a string. -/
def stringBody (text : Bytes) : Option (Bytes × Bytes) := chars text.length text

/-- The text stands for itself in a string. -/
def IsPlain (text : Bytes) : Prop := ∀ b ∈ text, b ≠ 34 ∧ b ≠ 92 ∧ ¬b < 32

instance (text : Bytes) : Decidable (IsPlain text) := decidableForallMem _ text

variable {n : ℕ}

section Strings

variable {text rest decoded tail : Bytes}

theorem hexUnit_reads (hunit : hexUnit text = some (n, rest)) :
    ∃ raw, text = raw ++ rest ∧ raw.length = 4 ∧ (34 : UInt8) ∉ raw := by
  unfold hexUnit at hunit
  split at hunit
  · rename_i a b c d rest'
    obtain ⟨x, ha, hunit⟩ := Option.bind_eq_some_iff.mp hunit
    obtain ⟨y, hb, hunit⟩ := Option.bind_eq_some_iff.mp hunit
    obtain ⟨z, hc, hunit⟩ := Option.bind_eq_some_iff.mp hunit
    obtain ⟨w, hd, hunit⟩ := Option.bind_eq_some_iff.mp hunit
    obtain ⟨-, rfl⟩ := Prod.mk.inj (Option.some.inj hunit)
    have hquote {digit : UInt8} {m : ℕ} (hdigit : hexDigit digit = some m) : (34 : UInt8) ≠ digit := by
      rintro rfl
      cases hdigit
    refine ⟨[a, b, c, d], rfl, rfl, ?_⟩
    simp [hquote ha, hquote hb, hquote hc, hquote hd]
  · cases hunit

theorem length_character (n : ℕ) : (character n).length ≤ 4 := by
  rw [character, String.length_utf8EncodeChar]
  exact Char.utf8Size_le_four _

theorem lowSurrogate_reads (hlow : lowSurrogate text = some (n, rest)) :
    ∃ raw, text = raw ++ rest ∧ (34 : UInt8) ∉ raw := by
  unfold lowSurrogate at hlow
  split at hlow
  · rename_i a b after
    split at hlow
    · rename_i hmark
      obtain ⟨⟨unit, after'⟩, hunit, hrange⟩ := Option.bind_eq_some_iff.mp hlow
      obtain ⟨raw, hsplit, -, hquote⟩ := hexUnit_reads hunit
      dsimp only at hrange
      split at hrange
      · obtain ⟨-, rfl⟩ := Prod.mk.inj (Option.some.inj hrange)
        rw [hsplit]
        refine ⟨a :: b :: raw, rfl, ?_⟩
        rw [hmark.1, hmark.2]
        simpa using hquote
      · cases hrange
    · cases hlow
  · cases hlow

theorem unicodeEscape_reads (hescape : unicodeEscape text = some (decoded, rest)) :
    ∃ raw, text = raw ++ rest ∧ decoded.length ≤ raw.length ∧ (34 : UInt8) ∉ raw := by
  obtain ⟨⟨unit, after⟩, hunit, hdecoded⟩ := Option.bind_eq_some_iff.mp hescape
  obtain ⟨raw, hsplit, hlength, hquote⟩ := hexUnit_reads hunit
  have hfour (n : ℕ) : (character n).length ≤ raw.length := hlength ▸ length_character n
  dsimp only at hdecoded
  split at hdecoded
  · split at hdecoded
    · rename_i low after' hlow
      obtain ⟨rfl, rfl⟩ := Prod.mk.inj (Option.some.inj hdecoded)
      obtain ⟨raw', rfl, hquote'⟩ := lowSurrogate_reads hlow
      refine ⟨raw ++ raw', by rw [hsplit, append_assoc], ?_, by simp [hquote, hquote']⟩
      rw [length_append]
      exact Nat.le_add_right_of_le (hfour _)
    · obtain ⟨rfl, rfl⟩ := Prod.mk.inj (Option.some.inj hdecoded)
      exact ⟨raw, hsplit, hfour _, hquote⟩
  · obtain ⟨rfl, rfl⟩ := Prod.mk.inj (Option.some.inj hdecoded)
    exact ⟨raw, hsplit, hfour _, hquote⟩

/-- What an escape stands for is not longer than the text after the backslash, and has its
quotes. -/
theorem escape_reads (hescape : escape text = some (decoded, rest)) :
    ∃ raw, text = raw ++ rest ∧ decoded.length ≤ raw.length ∧
      raw.count 34 ≤ decoded.count 34 := by
  cases text with
  | nil => cases hescape
  | cons b after =>
    rw [escape] at hescape
    split at hescape
    · rename_i hb
      obtain ⟨raw, rfl, hlength, hquote⟩ := unicodeEscape_reads hescape
      refine ⟨b :: raw, rfl, Nat.le_succ_of_le hlength, ?_⟩
      have hnone : (b :: raw).count 34 = 0 := by
        rw [count_eq_zero, hb]
        simpa using hquote
      rw [hnone]
      exact Nat.zero_le _
    · obtain ⟨letter, hletter, hescape⟩ := Option.map_eq_some_iff.mp hescape
      obtain ⟨rfl, rfl⟩ := Prod.mk.inj hescape
      obtain ⟨front, back, hsplit, -⟩ := List.lookup_eq_some_iff.mp hletter
      have hmem : (b, letter) ∈ escapes := hsplit ▸ mem_append_right _ mem_cons_self
      have hall : ∀ pair ∈ escapes, [pair.1].count 34 ≤ [pair.2].count 34 := by decide
      exact ⟨[b], rfl, Nat.le_refl _, hall _ hmem⟩

/-- What the characters of a string are read from. -/
structure ReadsString (raw decoded : Bytes) : Prop where
  quotes : raw.count 34 ≤ decoded.count 34
  length : decoded.length ≤ raw.length
  plain : decoded.length = raw.length → decoded = raw ∧ IsPlain raw

theorem chars_reads {fuel : ℕ} (hchars : chars fuel text = some (decoded, rest)) :
    ∃ raw, text = raw ++ 34 :: rest ∧ ReadsString raw decoded := by
  induction fuel generalizing text decoded with
  | zero => cases hchars
  | succ fuel ih =>
    cases text with
    | nil => cases hchars
    | cons b after =>
      rw [chars] at hchars
      split at hchars
      · rename_i hb
        obtain ⟨rfl, rfl⟩ := Prod.mk.inj (Option.some.inj hchars)
        rw [hb]
        exact ⟨[], rfl, Nat.le_refl _, Nat.le_refl _, fun _ ↦ ⟨rfl, fun _ h ↦ nomatch h⟩⟩
      · rename_i hquote
        split at hchars
        · rename_i hb
          obtain ⟨⟨first, after'⟩, hescape, hchars⟩ := Option.bind_eq_some_iff.mp hchars
          obtain ⟨⟨more, after''⟩, hmore, hchars⟩ := Option.bind_eq_some_iff.mp hchars
          obtain ⟨rfl, rfl⟩ := Prod.mk.inj (Option.some.inj hchars)
          obtain ⟨raw, rfl, hlength, hcount⟩ := escape_reads hescape
          obtain ⟨raw', rfl, hreads⟩ := ih hmore
          have hshorter := hreads.length
          have hquotes := hreads.quotes
          refine ⟨b :: (raw ++ raw'), by simp, ?_, ?_, ?_⟩
          · rw [count_cons_of_ne hquote, count_append, count_append]
            omega
          · rw [length_cons, length_append, length_append]
            omega
          · intro heq
            rw [length_cons, length_append, length_append] at heq
            omega
        · rename_i hslash
          split at hchars
          · cases hchars
          · rename_i hcontrol
            obtain ⟨⟨more, after'⟩, hmore, hchars⟩ := Option.bind_eq_some_iff.mp hchars
            obtain ⟨rfl, rfl⟩ := Prod.mk.inj (Option.some.inj hchars)
            obtain ⟨raw, rfl, hreads⟩ := ih hmore
            refine ⟨b :: raw, rfl, ?_, ?_, ?_⟩
            · rw [count_cons, count_cons]
              exact Nat.add_le_add_right hreads.quotes _
            · exact Nat.succ_le_succ hreads.length
            · intro heq
              obtain ⟨hsame, hplain⟩ := hreads.plain (Nat.succ.inj heq)
              refine ⟨by rw [hsame], ?_⟩
              intro c hc
              rcases mem_cons.mp hc with rfl | hc
              · exact ⟨hquote, hslash, hcontrol⟩
              · exact hplain c hc

theorem chars_plain {fuel : ℕ} (hplain : IsPlain text) (hfuel : text.length < fuel) :
    chars fuel (text ++ 34 :: tail) = some (text, tail) := by
  induction text generalizing fuel with
  | nil =>
    obtain ⟨fuel, rfl⟩ := Nat.exists_eq_add_of_lt hfuel
    rw [nil_append, chars, if_pos rfl]
  | cons b text ih =>
    cases fuel with
    | zero => cases hfuel
    | succ fuel =>
      obtain ⟨⟨hquote, hslash, hcontrol⟩, hplain⟩ := forall_mem_cons.mp hplain
      rw [cons_append, chars, if_neg hquote, if_neg hslash, if_neg hcontrol,
        ih hplain (Nat.lt_of_succ_lt_succ hfuel)]
      rfl

/-- A plain text in quotes is read as it is. -/
theorem stringBody_plain (hplain : IsPlain text) :
    stringBody (text ++ 34 :: tail) = some (text, tail) := by
  apply chars_plain hplain
  rw [length_append, length_cons]
  omega

/-- Only a plain text in quotes is read as itself. -/
theorem isPlain_of_stringBody (hbody : stringBody (text ++ 34 :: tail) = some (text, rest)) :
    IsPlain text ∧ rest = tail := by
  have hplain : IsPlain text := by
    obtain ⟨raw, hsplit, hreads⟩ := chars_reads hbody
    rcases append_eq_append_iff.mp hsplit with ⟨more, hraw, hmore⟩ | ⟨more, htext, hmore⟩
    · cases more with
      | nil =>
        rw [append_nil] at hraw
        subst hraw
        exact (hreads.plain rfl).2
      | cons b more =>
        -- The closing quote was read as part of the text.
        obtain ⟨rfl, -⟩ := List.cons.inj hmore
        have hquotes := hreads.quotes
        rw [hraw, count_append, count_cons_self] at hquotes
        omega
    · have hlength := hreads.length
      rw [htext, length_append] at hlength
      have hempty : more = [] := eq_nil_of_length_eq_zero (by omega)
      rw [hempty, append_nil] at htext
      subst htext
      exact (hreads.plain rfl).2
  rw [stringBody_plain hplain] at hbody
  exact ⟨hplain, (Prod.mk.inj (Option.some.inj hbody)).2.symm⟩

end Strings

/-! ### Values -/

def isBlank (b : UInt8) : Bool := b == 32 || b == 9 || b == 10 || b == 13

def skip (text : Bytes) : Bytes := text.dropWhile isBlank

def digits (text : Bytes) : Option Bytes :=
  match text with
  | [] => none
  | b :: rest => if isDigit b then some (rest.dropWhile isDigit) else none

/-- The digits before the point, which begin with 0 only if there is no other one. -/
def wholePart (text : Bytes) : Option Bytes :=
  if text.head? = some 48 then some text.tail else digits text

def fraction (text : Bytes) : Option Bytes :=
  if text.head? = some 46 then digits text.tail else some text

def exponent (text : Bytes) : Option Bytes :=
  if text.head? = some 101 ∨ text.head? = some 69 then
    if text.tail.head? = some 43 ∨ text.tail.head? = some 45 then digits text.tail.tail
    else digits text.tail
  else some text

/-- What comes after a number. -/
def afterNumber (text : Bytes) : Option Bytes := do
  let rest ← wholePart (if text.head? = some 45 then text.tail else text)
  let rest ← fraction rest
  exponent rest

/-- A value that is not a string, an array or an object. -/
def scalar (text : Bytes) : Option (Json × Bytes) :=
  if ascii "null" <+: text then some (.null, text.drop 4)
  else if ascii "true" <+: text then some (.bool true, text.drop 4)
  else if ascii "false" <+: text then some (.bool false, text.drop 5)
  else (afterNumber text).map fun rest ↦ (.number (text.take (text.length - rest.length)), rest)

section Sequences

variable {α : Type} (item : Bytes → Option (α × Bytes)) (close : UInt8)

/-- Items with commas between them, up to a closing byte. -/
def sequence : ℕ → Bytes → Option (List α × Bytes)
  | 0, _ => none
  | fuel + 1, text => do
    let (first, rest) ← item text
    match skip rest with
    | [] => none
    | b :: rest =>
      if b = 44 then do
        let (more, rest) ← sequence fuel rest
        some (first :: more, rest)
      else if b = close then some ([first], rest)
      else none

/-- The items of an array or an object, of which there may be none. -/
def items (text : Bytes) : Option (List α × Bytes) :=
  match skip text with
  | [] => none
  | b :: rest => if b = close then some ([], rest) else sequence item close text.length text

end Sequences

/-- A name and a value. -/
def member (value : Bytes → Option (Json × Bytes)) (text : Bytes) :
    Option ((Bytes × Json) × Bytes) :=
  match skip text with
  | [] => none
  | b :: rest =>
    if b = 34 then do
      let (name, rest) ← stringBody rest
      match skip rest with
      | [] => none
      | b :: rest =>
        if b = 58 then do
          let (v, rest) ← value rest
          some ((name, v), rest)
        else none
    else none

/-- A value that nests less than a given depth. -/
def value : ℕ → Bytes → Option (Json × Bytes)
  | 0, _ => none
  | depth + 1, text =>
    match skip text with
    | [] => none
    | b :: rest =>
      if b = 34 then (stringBody rest).map fun (decoded, rest) ↦ (.string decoded, rest)
      else if b = 91 then (items (value depth) 93 rest).map fun (list, rest) ↦ (.array list, rest)
      else if b = 123 then
        (items (member (value depth)) 125 rest).map fun (list, rest) ↦ (.object list, rest)
      else scalar (b :: rest)

/-- The value that a text stands for. -/
def decode (text : Bytes) : Option Json :=
  if isUtf8 text then do
    let (json, rest) ← value text.length text
    if skip rest = [] then some json else none
  else none

example : decode (ascii "\x7b\"a\": [1.5e3, \"x\\u00e9\"], \"b\" : null\x7d") = some (.object
    [([97], .array [.number (ascii "1.5e3"), .string [120, 0xC3, 0xA9]]), ([98], .null)]) := by
  rfl

example : decode (ascii "[1,]") = none := by rfl

/-! ### Quotes -/

mutual

/-- The quotes around the strings of a value and in them. -/
def quotes : Json → ℕ
  | .null | .bool _ | .number _ => 0
  | .string text => 2 + text.count 34
  | .array elements => quotesElements elements
  | .object members => quotesMembers members

def quotesElements : List Json → ℕ
  | [] => 0
  | first :: rest => quotes first + quotesElements rest

def quotesMembers : List (Bytes × Json) → ℕ
  | [] => 0
  | first :: rest => quotesMember first + quotesMembers rest

def quotesMember : Bytes × Json → ℕ
  | (name, json) => 2 + name.count 34 + quotes json

end

section Reads

variable {text rest : Bytes}

/-- The rest of a text after some bytes that are no quotes. -/
def Leaves (text rest : Bytes) : Prop := ∃ raw, text = raw ++ rest ∧ (34 : UInt8) ∉ raw

theorem Leaves.refl (text : Bytes) : Leaves text text := ⟨[], rfl, List.not_mem_nil⟩

theorem Leaves.trans (hfirst : Leaves text middle) (hsecond : Leaves middle rest) :
    Leaves text rest := by
  obtain ⟨raw, rfl, hraw⟩ := hfirst
  obtain ⟨raw', rfl, hraw'⟩ := hsecond
  exact ⟨raw ++ raw', by rw [append_assoc], by simp [hraw, hraw']⟩

theorem leaves_dropWhile {p : UInt8 → Bool} (hp : p 34 = false) (text : Bytes) :
    Leaves text (text.dropWhile p) := by
  refine ⟨text.takeWhile p, takeWhile_append_dropWhile.symm, fun hmem ↦ ?_⟩
  rw [mem_takeWhile_imp hmem] at hp
  cases hp

theorem leaves_skip (text : Bytes) : Leaves text (skip text) := leaves_dropWhile rfl text

theorem leaves_tail (hhead : text.head? = some b) (hb : b ≠ 34) : Leaves text text.tail := by
  obtain ⟨rest, rfl⟩ := List.head?_eq_some_iff.mp hhead
  exact ⟨[b], rfl, by simpa using hb.symm⟩

theorem digits_leaves (hdigits : digits text = some rest) : Leaves text rest := by
  cases text with
  | nil => cases hdigits
  | cons b after =>
    rw [digits] at hdigits
    split at hdigits
    · rename_i hb
      obtain rfl := Option.some.inj hdigits
      have hquote : b ≠ 34 := by
        rintro rfl
        cases hb
      exact (leaves_tail rfl hquote).trans (leaves_dropWhile rfl after)
    · cases hdigits

theorem wholePart_leaves (hpart : wholePart text = some rest) : Leaves text rest := by
  unfold wholePart at hpart
  split at hpart
  · rename_i hzero
    obtain rfl := Option.some.inj hpart
    exact leaves_tail hzero (by decide)
  · exact digits_leaves hpart

theorem fraction_leaves (hpart : fraction text = some rest) : Leaves text rest := by
  unfold fraction at hpart
  split at hpart
  · rename_i hpoint
    exact (leaves_tail hpoint (by decide)).trans (digits_leaves hpart)
  · obtain rfl := Option.some.inj hpart
    exact Leaves.refl text

theorem exponent_leaves (hpart : exponent text = some rest) : Leaves text rest := by
  unfold exponent at hpart
  split at hpart
  · rename_i hletter
    have hfirst : Leaves text text.tail :=
      hletter.elim (fun hhead ↦ leaves_tail hhead (by decide)) fun hhead ↦
        leaves_tail hhead (by decide)
    split at hpart
    · rename_i hsign
      have hsecond : Leaves text.tail text.tail.tail :=
        hsign.elim (fun hhead ↦ leaves_tail hhead (by decide)) fun hhead ↦
          leaves_tail hhead (by decide)
      exact (hfirst.trans hsecond).trans (digits_leaves hpart)
    · exact hfirst.trans (digits_leaves hpart)
  · obtain rfl := Option.some.inj hpart
    exact Leaves.refl text

theorem afterNumber_leaves (hnumber : afterNumber text = some rest) : Leaves text rest := by
  obtain ⟨after, hwhole, hnumber⟩ := Option.bind_eq_some_iff.mp hnumber
  obtain ⟨after', hfraction, hexponent⟩ := Option.bind_eq_some_iff.mp hnumber
  have hlast := (fraction_leaves hfraction).trans (exponent_leaves hexponent)
  have hnext := (wholePart_leaves hwhole).trans hlast
  split at hnext
  · rename_i hminus
    exact (leaves_tail hminus (by decide)).trans hnext
  · exact hnext

/-- An item is read from a text that has at most a given number of quotes. -/
def Reads {α : Type} (item : Bytes → Option (α × Bytes)) (weight : α → ℕ) : Prop :=
  ∀ text a rest, item text = some (a, rest) → ∃ raw, text = raw ++ rest ∧ raw.count 34 ≤ weight a

/-- The rest of a text after bytes of which at most a number are quotes. -/
def Passes (quotes : ℕ) (text rest : Bytes) : Prop :=
  ∃ raw, text = raw ++ rest ∧ raw.count 34 ≤ quotes

theorem Leaves.passes (hleaves : Leaves text rest) (n : ℕ) : Passes n text rest := by
  obtain ⟨raw, hsplit, hraw⟩ := hleaves
  refine ⟨raw, hsplit, ?_⟩
  rw [count_eq_zero.mpr hraw]
  exact Nat.zero_le _

theorem Passes.trans {m : ℕ} (hfirst : Passes m text middle) (hsecond : Passes n middle rest) :
    Passes (m + n) text rest := by
  obtain ⟨raw, rfl, hraw⟩ := hfirst
  obtain ⟨raw', rfl, hraw'⟩ := hsecond
  refine ⟨raw ++ raw', by rw [append_assoc], ?_⟩
  rw [count_append]
  exact Nat.add_le_add hraw hraw'

theorem Leaves.trans_passes (hfirst : Leaves text middle) (hsecond : Passes n middle rest) :
    Passes n text rest :=
  n.zero_add ▸ (hfirst.passes 0).trans hsecond

theorem Passes.leaves (hfirst : Passes n text middle) (hsecond : Leaves middle rest) :
    Passes n text rest :=
  hfirst.trans (hsecond.passes 0)

/-- A string has the quotes around it and no more in it than its text. -/
theorem passes_stringBody {decoded : Bytes} (hbody : stringBody text = some (decoded, rest)) :
    Passes (2 + decoded.count 34) (34 :: text) rest := by
  obtain ⟨raw, rfl, hreads⟩ := chars_reads hbody
  refine ⟨34 :: (raw ++ [34]), by simp, ?_⟩
  have hquotes := hreads.quotes
  rw [count_cons_self, count_append, count_singleton_self]
  omega

theorem reads_scalar : Reads scalar quotes := by
  intro text json rest hscalar
  have hword {word : Bytes} (hstarts : word <+: text) (hquote : (34 : UInt8) ∉ word) :
      Passes (quotes json) text (text.drop word.length) := by
    obtain ⟨after, rfl⟩ := hstarts
    exact Leaves.passes ⟨word, by rw [drop_left], hquote⟩ _
  unfold scalar at hscalar
  split at hscalar
  · obtain ⟨-, rfl⟩ := Prod.mk.inj (Option.some.inj hscalar)
    exact hword ‹_› (by decide)
  · split at hscalar
    · obtain ⟨-, rfl⟩ := Prod.mk.inj (Option.some.inj hscalar)
      exact hword ‹_› (by decide)
    · split at hscalar
      · obtain ⟨-, rfl⟩ := Prod.mk.inj (Option.some.inj hscalar)
        exact hword ‹_› (by decide)
      · obtain ⟨after, hnumber, hscalar⟩ := Option.map_eq_some_iff.mp hscalar
        obtain ⟨-, rfl⟩ := Prod.mk.inj hscalar
        exact (afterNumber_leaves hnumber).passes _

end Reads

section ReadsSequence

variable {α : Type} {item : Bytes → Option (α × Bytes)} {weight : α → ℕ} {close : UInt8}
  {text rest : Bytes} {list : List α}

/-- The weights of a list. -/
def total (weight : α → ℕ) (list : List α) : ℕ := list.foldr (fun a n ↦ weight a + n) 0

/-- A sequence ends with its closing byte. -/
theorem Reads.sequence (hitem : Reads item weight) {fuel : ℕ}
    (hlist : sequence item close fuel text = some (list, rest)) :
    Passes (total weight list) text (close :: rest) := by
  induction fuel generalizing text list with
  | zero => cases hlist
  | succ fuel ih =>
    obtain ⟨⟨first, after⟩, hfirst, hmore⟩ := Option.bind_eq_some_iff.mp hlist
    have hpassed : Passes (weight first) text after := hitem _ _ _ hfirst
    have hskipped := hpassed.leaves (leaves_skip after)
    dsimp only at hmore
    split at hmore
    · cases hmore
    · rename_i b after' hskip
      rw [hskip] at hskipped
      split at hmore
      · rename_i hcomma
        obtain ⟨⟨more, after''⟩, hseq, hmore⟩ := Option.bind_eq_some_iff.mp hmore
        obtain ⟨rfl, rfl⟩ := Prod.mk.inj (Option.some.inj hmore)
        rw [hcomma] at hskipped
        exact (hskipped.leaves (leaves_tail rfl (by decide))).trans (ih hseq)
      · split at hmore
        · rename_i hb
          obtain ⟨rfl, rfl⟩ := Prod.mk.inj (Option.some.inj hmore)
          rwa [← hb]
        · cases hmore

theorem Reads.items (hitem : Reads item weight) (hlist : items item close text = some (list, rest)) :
    Passes (total weight list) text (close :: rest) := by
  have hskipped := leaves_skip text
  unfold Json.items at hlist
  split at hlist
  · cases hlist
  · rename_i b after hskip
    rw [hskip] at hskipped
    split at hlist
    · rename_i hb
      obtain ⟨rfl, rfl⟩ := Prod.mk.inj (Option.some.inj hlist)
      rw [← hb]
      exact hskipped.passes _
    · exact hitem.sequence hlist

end ReadsSequence

theorem quotesElements_eq (list : List Json) : quotesElements list = total quotes list := by
  induction list with
  | nil => rfl
  | cons first rest ih =>
    rw [quotesElements, ih]
    rfl

theorem quotesMembers_eq (list : List (Bytes × Json)) :
    quotesMembers list = total quotesMember list := by
  induction list with
  | nil => rfl
  | cons first rest ih =>
    rw [quotesMembers, ih]
    rfl

theorem Reads.member {read : Bytes → Option (Json × Bytes)} (hread : Reads read quotes) :
    Reads (member read) quotesMember := by
  intro text result rest hmember
  have hskipped := leaves_skip text
  unfold Json.member at hmember
  split at hmember
  · cases hmember
  · rename_i b after hskip
    rw [hskip] at hskipped
    split at hmember
    · rename_i hb
      obtain ⟨⟨name, after'⟩, hname, hrest⟩ := Option.bind_eq_some_iff.mp hmember
      rw [hb] at hskipped
      have hnamed := (hskipped.trans_passes (passes_stringBody hname)).leaves (leaves_skip after')
      dsimp only at hrest
      split at hrest
      · cases hrest
      · rename_i c after₁ hskip'
        rw [hskip'] at hnamed
        split at hrest
        · rename_i hc
          obtain ⟨⟨json, after₂⟩, hjson, hresult⟩ := Option.bind_eq_some_iff.mp hrest
          obtain ⟨rfl, rfl⟩ := Prod.mk.inj (Option.some.inj hresult)
          rw [hc] at hnamed
          exact (hnamed.leaves (leaves_tail rfl (by decide))).trans (hread _ _ _ hjson)
        · cases hrest
    · cases hmember

/-- A value is read from a text that has at most its quotes. -/
theorem reads_value (depth : ℕ) : Reads (value depth) quotes := by
  induction depth with
  | zero =>
    intro text json rest hvalue
    cases hvalue
  | succ depth ih =>
    intro text json rest hvalue
    have hskipped := leaves_skip text
    rw [value] at hvalue
    split at hvalue
    · cases hvalue
    · rename_i b after hskip
      rw [hskip] at hskipped
      split at hvalue
      · rename_i hb
        obtain ⟨⟨decoded, after'⟩, hbody, hvalue⟩ := Option.map_eq_some_iff.mp hvalue
        obtain ⟨rfl, rfl⟩ := Prod.mk.inj hvalue
        rw [hb] at hskipped
        exact hskipped.trans_passes (passes_stringBody hbody)
      · rename_i hquote
        have hopened := hskipped.trans (leaves_tail rfl hquote)
        split at hvalue
        · obtain ⟨⟨list, after'⟩, hitems, hvalue⟩ := Option.map_eq_some_iff.mp hvalue
          obtain ⟨rfl, rfl⟩ := Prod.mk.inj hvalue
          have hlist := (ih.items hitems).leaves (leaves_tail rfl (by decide))
          rw [← quotesElements_eq] at hlist
          exact hopened.trans_passes hlist
        · split at hvalue
          · obtain ⟨⟨list, after'⟩, hitems, hvalue⟩ := Option.map_eq_some_iff.mp hvalue
            obtain ⟨rfl, rfl⟩ := Prod.mk.inj hvalue
            have hlist := (ih.member.items hitems).leaves (leaves_tail rfl (by decide))
            rw [← quotesMembers_eq] at hlist
            exact hopened.trans_passes hlist
          · exact hskipped.trans_passes (reads_scalar _ _ _ hvalue)

/-- A text has no more quotes than the value that it stands for. -/
theorem count_le_quotes {text : Bytes} {json : Json} (hdecode : decode text = some json) :
    text.count 34 ≤ quotes json := by
  unfold decode at hdecode
  split at hdecode
  · obtain ⟨⟨json', rest⟩, hvalue, hend⟩ := Option.bind_eq_some_iff.mp hdecode
    obtain ⟨raw, hraw, hcount⟩ := reads_value _ _ _ _ hvalue
    dsimp only at hend
    split at hend
    · rename_i hskip
      obtain rfl := Option.some.inj hend
      obtain ⟨blanks, hblanks, hquote⟩ := leaves_skip rest
      rw [hskip, append_nil] at hblanks
      rw [hraw, count_append, hblanks, count_eq_zero.mpr hquote]
      exact hcount
    · cases hend
  · cases hdecode

/-- A text that begins with a brace ends with one. -/
theorem ends_of_decode_brace {text : Bytes} {json : Json} (hdecode : decode (123 :: text) = some json) :
    ∃ front blanks, text = front ++ 125 :: blanks ∧ ∀ b ∈ blanks, isBlank b = true := by
  unfold decode at hdecode
  split at hdecode
  · obtain ⟨⟨json', rest⟩, hvalue, hend⟩ := Option.bind_eq_some_iff.mp hdecode
    rw [length_cons, value, skip, dropWhile_cons_of_neg (by decide)] at hvalue
    obtain ⟨⟨list, rest'⟩, hitems, hvalue⟩ := Option.map_eq_some_iff.mp hvalue
    obtain ⟨-, rfl⟩ := Prod.mk.inj hvalue
    obtain ⟨raw, hraw, -⟩ := (reads_value _).member.items hitems
    refine ⟨raw, rest', hraw, ?_⟩
    dsimp only at hend
    split at hend
    · rename_i hskip
      exact dropWhile_eq_nil_iff.mp hskip
    · cases hend
  · cases hdecode

/-! ### Reading what was printed -/

section Printed

variable {α : Type} {item : Bytes → Option (α × Bytes)} {close : UInt8} {name text rest : Bytes}

theorem skip_cons (hb : isBlank b = false) (rest : Bytes) : skip (b :: rest) = b :: rest :=
  dropWhile_cons_of_neg (by simp [hb])

theorem skip_gap {gap : Bytes} (hgap : ∀ b ∈ gap, isBlank b = true) (rest : Bytes) :
    skip (gap ++ rest) = skip rest := by
  induction gap with
  | nil => rfl
  | cons b gap ih =>
    obtain ⟨hb, hgap⟩ := forall_mem_cons.mp hgap
    rw [cons_append, skip, dropWhile_cons_of_pos hb]
    exact ih hgap

/-- A sequence goes on after a comma. -/
theorem sequence_comma {first : α} (fuel : ℕ) (hfirst : item text = some (first, 44 :: rest)) :
    sequence item close (fuel + 1) text =
      (sequence item close fuel rest).map fun (more, rest) ↦ (first :: more, rest) := by
  rw [sequence, hfirst, Option.bind_eq_bind, Option.bind_some]
  dsimp only
  rw [skip_cons (by decide)]
  dsimp only
  rw [if_pos rfl]
  cases sequence item close fuel rest <;> rfl

/-- A sequence ends at the closing byte. -/
theorem sequence_close {first : α} (fuel : ℕ) (hfirst : item text = some (first, close :: rest))
    (hblank : isBlank close = false) (hcomma : close ≠ 44) :
    sequence item close (fuel + 1) text = some ([first], rest) := by
  rw [sequence, hfirst, Option.bind_eq_bind, Option.bind_some]
  dsimp only
  rw [skip_cons hblank]
  dsimp only
  rw [if_neg hcomma, if_pos rfl]

/-- A sequence that was read has a first item. -/
theorem exists_of_sequence {fuel : ℕ} {list : List α}
    (hlist : sequence item close fuel text = some (list, rest)) :
    ∃ first after more, item text = some (first, after) ∧ list = first :: more := by
  cases fuel with
  | zero => cases hlist
  | succ fuel =>
    obtain ⟨⟨first, after⟩, hfirst, hmore⟩ := Option.bind_eq_some_iff.mp hlist
    refine ⟨first, after, list.tail, hfirst, ?_⟩
    dsimp only at hmore
    split at hmore
    · cases hmore
    · split at hmore
      · obtain ⟨⟨more, after'⟩, -, hmore⟩ := Option.bind_eq_some_iff.mp hmore
        obtain ⟨rfl, -⟩ := Prod.mk.inj (Option.some.inj hmore)
        rfl
      · split at hmore
        · obtain ⟨rfl, -⟩ := Prod.mk.inj (Option.some.inj hmore)
          rfl
        · cases hmore

theorem value_quote (depth : ℕ) (text : Bytes) :
    value (depth + 1) (34 :: text) =
      (stringBody text).map fun (decoded, rest) ↦ (.string decoded, rest) := by
  rw [value, skip_cons (by decide)]
  exact if_pos rfl

theorem value_bracket (depth : ℕ) (text : Bytes) :
    value (depth + 1) (91 :: text) =
      (items (value depth) 93 text).map fun (list, rest) ↦ (.array list, rest) := by
  rw [value, skip_cons (by decide)]
  rfl

theorem value_brace (depth : ℕ) (text : Bytes) :
    value (depth + 1) (123 :: text) =
      (items (member (value depth)) 125 text).map fun (list, rest) ↦ (.object list, rest) := by
  rw [value, skip_cons (by decide)]
  rfl

theorem items_eq_sequence (hblank : isBlank b = false) (hb : b ≠ close) :
    items item close (b :: text) = sequence item close (b :: text).length (b :: text) := by
  rw [items, skip_cons hblank]
  exact if_neg hb

/-- A member with a plain name. -/
theorem member_quote {read : Bytes → Option (Json × Bytes)} (hname : IsPlain name) (text : Bytes) :
    member read (34 :: (name ++ 34 :: 58 :: text)) =
      (read text).map fun (json, rest) ↦ ((name, json), rest) := by
  rw [member, skip_cons (by decide)]
  dsimp only
  rw [if_pos rfl, stringBody_plain hname, Option.bind_eq_bind, Option.bind_some]
  dsimp only
  rw [skip_cons (by decide)]
  dsimp only
  rw [if_pos rfl]
  cases read text <;> rfl

theorem member_gap {read : Bytes → Option (Json × Bytes)} {gap : Bytes}
    (hgap : ∀ b ∈ gap, isBlank b = true) (text : Bytes) :
    member read (gap ++ text) = member read text := by
  rw [member, skip_gap hgap]
  rfl

theorem value_gap {gap : Bytes} (hgap : ∀ b ∈ gap, isBlank b = true) (depth : ℕ) (text : Bytes) :
    value depth (gap ++ text) = value depth text := by
  cases depth with
  | zero => rfl
  | succ depth =>
    rw [value, skip_gap hgap]
    rfl

/-- The text of a member with a string. -/
def stringMember (name gap text : Bytes) : Bytes := 34 :: (name ++ 34 :: 58 :: (gap ++ 34 :: text))

variable {gap tail decoded : Bytes} {depth fuel : ℕ} {list : List (Bytes × Json)}

theorem member_stringMember (hname : IsPlain name) (hgap : ∀ b ∈ gap, isBlank b = true) :
    member (value (depth + 1)) (stringMember name gap text) =
      (stringBody text).map fun (decoded, rest) ↦ ((name, .string decoded), rest) := by
  rw [stringMember, member_quote hname, value_gap hgap, value_quote, Option.map_map]
  rfl

/-- The first member of a list of members, whose text is read as itself only if it is plain. -/
theorem member_stringMember_iff (hname : IsPlain name) (hgap : ∀ b ∈ gap, isBlank b = true) :
    member (value (depth + 1)) (stringMember name gap (text ++ 34 :: tail)) =
        some ((name, .string text), rest) ↔ IsPlain text ∧ rest = tail := by
  rw [member_stringMember hname hgap]
  constructor
  · intro hmember
    obtain ⟨⟨decoded, after⟩, hbody, hmember⟩ := Option.map_eq_some_iff.mp hmember
    obtain ⟨hpair, rfl⟩ := Prod.mk.inj hmember
    obtain rfl := Json.string.inj (Prod.mk.inj hpair).2
    exact isPlain_of_stringBody hbody
  · rintro ⟨hplain, rfl⟩
    rw [stringBody_plain hplain]
    rfl

/-- Members after a string. -/
theorem sequence_stringMember_comma (hname : IsPlain name) (hgap : ∀ b ∈ gap, isBlank b = true) :
    sequence (member (value (depth + 1))) 125 (fuel + 1)
          (stringMember name gap (text ++ 34 :: 44 :: tail)) =
        some ((name, .string text) :: list, rest) ↔
      IsPlain text ∧ sequence (member (value (depth + 1))) 125 fuel tail = some (list, rest) := by
  constructor
  · intro hlist
    obtain ⟨first, after, more, hfirst, hmore⟩ := exists_of_sequence hlist
    obtain ⟨rfl, rfl⟩ := List.cons.inj hmore
    obtain ⟨hplain, rfl⟩ := (member_stringMember_iff hname hgap).mp hfirst
    rw [sequence_comma fuel hfirst] at hlist
    obtain ⟨⟨more, after'⟩, htail, hmore⟩ := Option.map_eq_some_iff.mp hlist
    obtain ⟨hcons, rfl⟩ := Prod.mk.inj hmore
    rw [← (List.cons.inj hcons).2]
    exact ⟨hplain, htail⟩
  · rintro ⟨hplain, hlist⟩
    rw [sequence_comma fuel ((member_stringMember_iff hname hgap).mpr ⟨hplain, rfl⟩), hlist]
    rfl

/-- A string as the last member. -/
theorem sequence_stringMember_close (hname : IsPlain name) (hgap : ∀ b ∈ gap, isBlank b = true) :
    sequence (member (value (depth + 1))) 125 (fuel + 1)
          (stringMember name gap (text ++ 34 :: 125 :: tail)) =
        some ([(name, .string text)], rest) ↔ IsPlain text ∧ rest = tail := by
  constructor
  · intro hlist
    obtain ⟨first, after, more, hfirst, hmore⟩ := exists_of_sequence hlist
    obtain ⟨rfl, rfl⟩ := List.cons.inj hmore
    obtain ⟨hplain, rfl⟩ := (member_stringMember_iff hname hgap).mp hfirst
    rw [sequence_close fuel hfirst (by decide) (by decide)] at hlist
    exact ⟨hplain, (Prod.mk.inj (Option.some.inj hlist)).2.symm⟩
  · rintro ⟨hplain, rfl⟩
    exact sequence_close fuel ((member_stringMember_iff hname hgap).mpr ⟨hplain, rfl⟩) (by decide)
      (by decide)

end Printed

/-- Only the text of the first item matters for how a sequence is read. -/
theorem sequence_congr {α : Type} {item : Bytes → Option (α × Bytes)} {close : UInt8}
    {text text' : Bytes} (hitem : item text = item text') (fuel : ℕ) :
    sequence item close fuel text = sequence item close fuel text' := by
  cases fuel with
  | zero => rfl
  | succ fuel => rw [sequence, sequence, hitem]

/-- A value has a member at some depth. -/
inductive HasMember : Json → Bytes → Json → Prop
  | here {members : List (Bytes × Json)} {name : Bytes} {json : Json} (hmem : (name, json) ∈ members) :
    HasMember (.object members) name json
  | inMember {members : List (Bytes × Json)} {outer name : Bytes} {json inner : Json}
    (hmem : (outer, json) ∈ members) (hinner : HasMember json name inner) :
    HasMember (.object members) name inner
  | inElement {elements : List Json} {name : Bytes} {json inner : Json} (hmem : json ∈ elements)
    (hinner : HasMember json name inner) : HasMember (.array elements) name inner

end Json

end WisCam.Foundations
