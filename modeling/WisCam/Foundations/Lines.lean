import Mathlib.Data.List.Basic
import WisCam.Foundations.Bytes

/-!
# Reading a text line by line

A text is read into a buffer of a given size, a line at a time. A line ends after a line feed, at
the end of the text, or when the buffer is full, and a carriage return counts as a line feed.
`lines` has what the successive reads store.

The lines of a text are of a simple form as long as the buffer never fills up (`IsLine`), and they
are read again as they are (`lines_of_isLine`). A text that ends with a line feed is read
independently of what comes after it (`lines_append`), so rewriting the lines of a text one by one
rewrites what is read from it (`lines_flatten_map`).
-/

set_option autoImplicit false

namespace WisCam.Foundations

open List

/-- What is stored for a byte of the text. -/
def lineByte (b : UInt8) : UInt8 := if b = 13 then 10 else b

section

variable (size : ℕ)

/-- The lines of a text, when some bytes of the first one are already in the buffer. -/
def linesFrom (buffer : Bytes) : Bytes → List Bytes
  | [] => if buffer = [] then [] else [buffer]
  | b :: rest =>
    if lineByte b = 10 ∨ buffer.length + 1 = size then
      (buffer ++ [lineByte b]) :: linesFrom [] rest
    else linesFrom (buffer ++ [lineByte b]) rest

/-- The lines of a text, as they are stored in the buffer. -/
def lines (text : Bytes) : List Bytes := linesFrom size [] text

/-- A line that fits into the buffer: a line feed can only be its last byte. -/
structure IsLine (line : Bytes) : Prop where
  ne_nil : line ≠ []
  short : line.length < size
  no_return : (13 : UInt8) ∉ line
  no_feed : (10 : UInt8) ∉ line.dropLast

end

/-- The text ends with a line feed. -/
def EndsLine (text : Bytes) : Prop := text.getLast? = some 10

variable {size : ℕ} {buffer text line : Bytes}

theorem lineByte_ne_return (b : UInt8) : lineByte b ≠ 13 := by
  unfold lineByte
  split
  · decide
  · assumption

theorem lineByte_of_ne {b : UInt8} (hreturn : b ≠ 13) : lineByte b = b := if_neg hreturn

theorem lineByte_eq_feed {b : UInt8} : lineByte b = 10 ↔ b = 13 ∨ b = 10 := by
  unfold lineByte
  split
  · simp [‹b = 13›]
  · simp [‹¬b = 13›]

/-- Nothing is lost when a text is read. -/
theorem flatten_linesFrom :
    (linesFrom size buffer text).flatten = buffer ++ text.map lineByte := by
  induction text generalizing buffer with
  | nil =>
    rw [linesFrom]
    split
    · simp [‹buffer = []›]
    · simp
  | cons b rest ih =>
    rw [linesFrom]
    split
    · simp [ih]
    · simp [ih]

theorem flatten_lines : (lines size text).flatten = text.map lineByte :=
  flatten_linesFrom

/-- What comes after a line feed is read on its own. -/
theorem linesFrom_append (hends : text.getLast? = some 10) (more : Bytes) :
    linesFrom size buffer (text ++ more) = linesFrom size buffer text ++ lines size more := by
  induction text generalizing buffer with
  | nil => cases hends
  | cons b rest ih =>
    rw [cons_append, linesFrom, linesFrom]
    cases rest with
    | nil =>
      have hfeed : lineByte b = 10 := by
        rw [show b = 10 from Option.some.inj hends]
        decide
      rw [if_pos (.inl hfeed), if_pos (.inl hfeed)]
      rfl
    | cons next rest =>
      have hrest : (next :: rest).getLast? = some 10 := hends
      split
      · rw [ih hrest, cons_append]
      · exact ih hrest

theorem lines_append (hends : EndsLine text) (more : Bytes) :
    lines size (text ++ more) = lines size text ++ lines size more :=
  linesFrom_append hends more

/-- Reading on in a line that fits. -/
theorem linesFrom_of_isLine {front : Bytes} (hline : IsLine size (front ++ text)) (htext : text ≠ []) :
    linesFrom size front text = [front ++ text] := by
  induction text generalizing front with
  | nil => exact absurd rfl htext
  | cons b rest ih =>
    have hbyte : lineByte b = b := by
      apply lineByte_of_ne
      rintro rfl
      exact hline.no_return (by simp)
    have hshort := hline.short
    rw [length_append, length_cons] at hshort
    rw [linesFrom, hbyte]
    cases rest with
    | nil =>
      split
      · rfl
      · rw [linesFrom, if_neg (by simp)]
    | cons next rest =>
      have hfeed : b ≠ 10 := by
        rintro rfl
        apply hline.no_feed
        simp [dropLast_append_of_ne_nil]
      have hmore : ¬(b = 10 ∨ front.length + 1 = size) := by
        rw [length_cons] at hshort
        rintro (hlast | hfull)
        · exact hfeed hlast
        · omega
      rw [if_neg hmore, ih]
      · simp
      · simpa using hline
      · exact cons_ne_nil _ _

/-- The first line of a text ends at its first line feed or carriage return, or where the buffer is
full. -/
theorem linesFrom_stop {front rest : Bytes} {b : UInt8} (hfront : ∀ a ∈ front, a ≠ 13 ∧ a ≠ 10)
    (hshort : buffer.length + front.length + 1 ≤ size)
    (hstop : lineByte b = 10 ∨ buffer.length + front.length + 1 = size) :
    linesFrom size buffer (front ++ b :: rest) =
      (buffer ++ front ++ [lineByte b]) :: lines size rest := by
  induction front generalizing buffer with
  | nil =>
    rw [length_nil, Nat.add_zero] at hstop
    rw [nil_append, linesFrom, if_pos hstop, append_nil, lines]
  | cons a front ih =>
    rw [forall_mem_cons] at hfront
    obtain ⟨⟨hreturn, hfeed⟩, hfront⟩ := hfront
    rw [length_cons] at hshort hstop
    have hmore : ¬(lineByte a = 10 ∨ buffer.length + 1 = size) := by
      rw [lineByte_of_ne hreturn]
      rintro (hlast | hfull)
      · exact hfeed hlast
      · omega
    have hlength : (buffer ++ [a]).length = buffer.length + 1 := length_append
    rw [cons_append, linesFrom, if_neg hmore, lineByte_of_ne hreturn, ih hfront]
    · simp
    · omega
    · exact hstop.imp_right fun hfull ↦ by omega

/-- A line is read as it is. -/
theorem lines_of_isLine (hline : IsLine size line) : lines size line = [line] :=
  linesFrom_of_isLine hline hline.ne_nil

/-- What is read from a text are lines, as long as the buffer never fills up. -/
theorem isLine_of_mem_linesFrom (hbuffer : (13 : UInt8) ∉ buffer ∧ (10 : UInt8) ∉ buffer)
    (hmem : line ∈ linesFrom size buffer text) (hshort : line.length ≠ size)
    (hbound : buffer.length < size) : IsLine size line := by
  induction text generalizing buffer with
  | nil =>
    rw [linesFrom] at hmem
    split at hmem
    · cases hmem
    · rw [mem_singleton] at hmem
      subst hmem
      exact ⟨‹_›, hbound, hbuffer.1, fun hfeed ↦ hbuffer.2 (dropLast_subset _ hfeed)⟩
  | cons b rest ih =>
    have hreturn : (13 : UInt8) ∉ buffer ++ [lineByte b] := by
      rw [mem_append, mem_singleton]
      exact fun hor ↦ hor.elim hbuffer.1 fun hb ↦ lineByte_ne_return b hb.symm
    rw [linesFrom] at hmem
    split at hmem
    · rcases mem_cons.mp hmem with rfl | hmem
      · refine ⟨by simp, ?_, hreturn, by simpa using hbuffer.2⟩
        rw [length_append, length_singleton] at hshort ⊢
        omega
      · exact ih ⟨not_mem_nil, not_mem_nil⟩ hmem (by simp; omega)
    · rename_i hgoes
      rw [not_or] at hgoes
      refine ih ⟨hreturn, ?_⟩ hmem ?_
      · rw [mem_append, mem_singleton]
        exact fun hor ↦ hor.elim hbuffer.2 fun hb ↦ hgoes.1 hb.symm
      · rw [length_append, length_singleton]
        omega

theorem isLine_of_mem_lines (hsize : 0 < size) (hmem : line ∈ lines size text)
    (hshort : line.length ≠ size) : IsLine size line :=
  isLine_of_mem_linesFrom ⟨not_mem_nil, not_mem_nil⟩ hmem hshort hsize

/-- As long as the buffer never fills up, every line but the last one ends with a line feed. -/
theorem endsLine_of_mem_dropLast (hshort : ∀ line ∈ linesFrom size buffer text, line.length ≠ size)
    (hmem : line ∈ (linesFrom size buffer text).dropLast) : EndsLine line := by
  induction text generalizing buffer with
  | nil =>
    rw [linesFrom] at hmem
    split at hmem <;> cases hmem
  | cons b rest ih =>
    rw [linesFrom] at hmem hshort
    split at hmem
    · rename_i hstops
      rw [if_pos hstops] at hshort
      have hfirst := hshort _ mem_cons_self
      rw [length_append, length_singleton] at hfirst
      have hfeed : lineByte b = 10 := hstops.resolve_right hfirst
      cases hrest : linesFrom size [] rest with
      | nil =>
        rw [hrest] at hmem
        cases hmem
      | cons next others =>
        rw [hrest, dropLast_cons_cons, ← hrest] at hmem
        rcases mem_cons.mp hmem with rfl | hmem
        · rw [EndsLine, hfeed]
          simp
        · exact ih (fun line hline ↦ hshort line (mem_cons_of_mem _ hline)) hmem
    · rename_i hgoes
      rw [if_neg hgoes] at hshort
      exact ih hshort hmem

/-- Rewriting lines one by one, where all but the last rewritten text end with a line feed. -/
theorem lines_flatten_map {rewrite : Bytes → Bytes} {read : List Bytes}
    (hends : ∀ line ∈ read.dropLast, EndsLine (rewrite line)) :
    lines size (read.map rewrite).flatten = read.flatMap fun line ↦ lines size (rewrite line) := by
  induction read with
  | nil => rfl
  | cons first rest ih =>
    rw [map_cons, flatten_cons, flatMap_cons]
    cases rest with
    | nil => simp
    | cons next rest =>
      have hfirst : EndsLine (rewrite first) := hends first (by simp)
      rw [lines_append hfirst, ih]
      intro line hline
      exact hends line (by rw [dropLast_cons_cons]; exact mem_cons_of_mem _ hline)

end WisCam.Foundations
