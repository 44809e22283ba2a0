import WisCam.Rest.UpdatedFiles

/-!
# What an update does to other parameters

`WriteParamStr` copies the decoded value into the file, and a decoded value may have line breaks.
What comes after a line break is a line of its own and may be read as another parameter. In the
`nabto` group any name is accepted, so the line of another parameter may also be the one that is
replaced.

`other_param_unchanged_iff` says for which pairs neither can happen: every line that the update
replaces must have for the other parameter what the printed text has for it (`HarmlessTo`). For a
name without blanks this means that neither name begins with the other one, and that no line of the
printed text begins with the other name or fills the line buffer (`harmlessTo_iff`).
-/

set_option autoImplicit false

namespace WisCam.Rest

open Foundations List

/-! ### Harmless writes -/

/-- For another parameter, the text that is printed for a parameter is as good as any line that it
replaces. -/
def HarmlessTo (other param value : Bytes) : Prop :=
  ∀ line, IsLine readBufSize line → (0 : UInt8) ∉ line → param <+: line →
    lineValue other line = (lines readBufSize (paramText param value)).findSome? (lineValue other)

section Harmless

variable {other param value text : Bytes}

theorem findSome?_flatMap {α β γ : Type} {f : β → Option γ} {g : α → List β} {h : α → Option γ}
    {list : List α} (hsame : ∀ a ∈ list, (g a).findSome? f = h a) :
    (list.flatMap g).findSome? f = list.findSome? h := by
  induction list with
  | nil => rfl
  | cons a list ih =>
    rw [forall_mem_cons] at hsame
    rw [flatMap_cons, List.findSome?_append, List.findSome?_cons, hsame.1, ih hsame.2]
    cases h a <;> rfl

/-- A line is read as the string that the buffer holds. -/
theorem lineValue_cstr {line : Bytes} (hline : IsLine readBufSize line) :
    lineValue other (cstr line) = lineValue other line := by
  have hlength : (cstr line).length ≤ line.length := (List.takeWhile_prefix _).length_le
  have hshort := hline.short
  rw [lineValue, lineValue, if_neg (Nat.ne_of_lt hshort),
    if_neg (Nat.ne_of_lt (Nat.lt_of_le_of_lt hlength hshort)), cstr_eq_self (nul_notMem_cstr line)]

theorem isLine_cstr {line : Bytes} (hline : IsLine readBufSize line) (hne : cstr line ≠ []) :
    IsLine readBufSize (cstr line) := by
  have hstarts : cstr line <+: line := List.takeWhile_prefix _
  refine ⟨hne, Nat.lt_of_le_of_lt hstarts.length_le hline.short,
    fun h ↦ hline.no_return (hstarts.subset h), fun h ↦ hline.no_feed ?_⟩
  have hlength : (cstr line).dropLast.length ≤ line.length - 1 := by
    rw [length_dropLast]
    exact Nat.sub_le_sub_right hstarts.length_le 1
  rw [List.dropLast_eq_take]
  exact (prefix_take_iff.mpr ⟨(List.dropLast_prefix _).trans hstarts, hlength⟩).subset h

/-- A harmless write leaves the other parameter as it was. -/
theorem HarmlessTo.valueIn_rewrite (hharmless : HarmlessTo other param value) (hne : param ≠ [])
    (htext : Rewritable param text) :
    valueIn other (lines readBufSize (rewriteFile param value text)) =
      valueIn other (lines readBufSize text) := by
  rw [valueIn, valueIn, lines_rewrite htext]
  congr 1
  apply findSome?_flatMap
  intro line hline
  split
  · rename_i hparam
    have hread := htext.isLine hline
    have hstarts : param <+: cstr line := by
      by_cases hzero : (0 : UInt8) ∈ line
      · exact htext.replaced line hline hzero
      · rw [cstr_eq_self hzero]
        exact hparam
    rw [← lineValue_cstr hread]
    exact (hharmless (cstr line) (isLine_cstr hread fun h ↦ hne (prefix_nil.mp (h ▸ hstarts)))
      (nul_notMem_cstr line) hstarts).symm
  · rw [List.findSome?_cons]
    cases lineValue other line <;> rfl

/-- Harmless writes leave the other parameter as it was, if the first one replaces the lines with a
NUL. -/
theorem readParamStr_runWrites {list : List (Bytes × Bytes)} {s s' : Storage}
    (hlist : ∀ write ∈ list, write.1 ≠ [] ∧
      (0 : UInt8) ∉ write.1 ∧ (0 : UInt8) ∉ write.2 ∧ HarmlessTo other write.1 write.2)
    (hfile : s.file = some text)
    (htext : ∀ write ∈ list.head?, ∀ line ∈ lines readBufSize text, (0 : UInt8) ∈ line →
      write.1 <+: cstr line)
    (hrun : runWrites writeParamStr list s = .ok (true, s')) :
    readParamStr s'.file other = readParamStr s.file other := by
  induction list generalizing s text with
  | nil =>
    obtain ⟨-, rfl⟩ := Prod.mk.inj (Except.ok.inj hrun)
    rfl
  | cons first rest ih =>
    obtain ⟨param, value⟩ := first
    rw [forall_mem_cons] at hlist
    obtain ⟨⟨hne, hparam, hvalue, hharmless⟩, hlist⟩ := hlist
    rw [runWrites] at hrun
    obtain ⟨⟨ret, s₁⟩, hwrite, hrun⟩ := bind_eq_ok_iff.mp hrun
    dsimp only at hrun
    split at hrun
    · rename_i hret
      subst hret
      obtain ⟨hnew, hshort⟩ := writeParamStr_ok hfile hwrite
      have hzero : (0 : UInt8) ∉ rewriteFile param value text := nul_rewriteFile hparam hvalue
      rw [ih hlist hnew (fun _ _ line hline h ↦ absurd h (nul_of_mem_lines hzero hline)) hrun, hnew,
        hfile, readParamStr, readParamStr]
      rw [hharmless.valueIn_rewrite hne ⟨htext _ rfl, hshort⟩]
    · cases (Prod.mk.inj (Except.ok.inj hrun)).1

end Harmless

/-! ### Parameters of a table -/

section Tables

variable {group : Group} {other param value : Bytes}

/-- No name of a table begins with another one. -/
theorem params_apart (hparam : param ∈ group.params) (hother : other ∈ group.params)
    (hne : param ≠ other) : ¬param <+: other := by
  have hall : ∀ param ∈ group.params, ∀ other ∈ group.params, param ≠ other → ¬param <+: other := by
    cases group <;> decide +kernel
  exact hall param hparam other hother hne

/-- A line does not begin with two names of a table. -/
theorem not_prefix_of_apart {line : Bytes} (hparam : param ∈ group.params)
    (hother : other ∈ group.params) (hne : param ≠ other) (hline : param <+: line) :
    ¬other <+: line := by
  intro hstarts
  rcases List.prefix_or_prefix_of_prefix hline hstarts with h | h
  · exact params_apart hparam hother hne h
  · exact params_apart hother hparam hne.symm h

end Tables

/-! ### Files that tell whether a write is harmless -/

section Probes

variable {group : Group} {other param value : Bytes}

/-- What gives a parameter a value of one letter, after its name. -/
def probeTail (other : Bytes) (letter : UInt8) : Bytes :=
  if isSsid other then [34, letter, 34, 10] else [letter, 10]

/-- A line that gives a parameter a value of one letter. -/
def probeLine (other : Bytes) (letter : UInt8) : Bytes := other ++ probeTail other letter

/-- The letters for the probes. -/
def letters : List UInt8 := [120, 121, 122]

theorem probeTail_spec {letter : UInt8} (hletter : letter ∈ letters) :
    scanValue other (probeTail other letter) = [letter] ∧
      (∃ front, probeTail other letter = front ++ [10] ∧
        (13 : UInt8) ∉ front ∧ (10 : UInt8) ∉ front ∧ (0 : UInt8) ∉ front) ∧
      (probeTail other letter).length ≤ 4 := by
  unfold scanValue probeTail
  split
  · refine ⟨?_, ⟨[34, letter, 34], rfl, ?_⟩, Nat.le_refl _⟩
    · revert letter
      decide
    · revert letter
      decide
  · refine ⟨?_, ⟨[letter], rfl, ?_⟩, Nat.le_add_left 2 2⟩
    · revert letter
      decide
    · revert letter
      decide

/-- A text without line breaks is a line if it is ended. -/
theorem isLine_concat {word : Bytes} (hword : ∀ b ∈ word, b ≠ 13 ∧ b ≠ 10 ∧ b ≠ 0)
    (hshort : word.length < 255) :
    IsLine readBufSize (word ++ [10]) ∧ (0 : UInt8) ∉ word ++ [10] := by
  refine ⟨⟨by simp, ?_, ?_, ?_⟩, ?_⟩
  · rw [length_append, length_singleton, readBufSize]
    omega
  · simpa using fun h ↦ (hword 13 h).1 rfl
  · rw [dropLast_concat]
    exact fun h ↦ (hword 10 h).2.1 rfl
  · simpa using fun h ↦ (hword 0 h).2.2 rfl

theorem probeLine_spec {letter : UInt8} (hother : IsParam other) (hletter : letter ∈ letters) :
    IsLine readBufSize (probeLine other letter) ∧ EndsLine (probeLine other letter) ∧
      (0 : UInt8) ∉ probeLine other letter ∧
      lineValue other (probeLine other letter) = some (.ok [letter]) := by
  obtain ⟨hscan, ⟨front, htail, hreturn, hfeed, hnul⟩, hlength⟩ := @probeTail_spec other _ hletter
  have hshort := hother.2.1
  have hsplit : probeLine other letter = (other ++ front) ++ [10] := by
    rw [probeLine, htail, append_assoc]
  have hplain : ∀ b ∈ other ++ front, b ≠ 13 ∧ b ≠ 10 ∧ b ≠ 0 := by
    intro b hb
    rcases mem_append.mp hb with hb | hb
    · obtain ⟨hreturn, hfeed⟩ := hother.ne_break b hb
      exact ⟨hreturn, hfeed, (hother.2.2 b hb).2.2⟩
    · exact ⟨fun h ↦ hreturn (h ▸ hb), fun h ↦ hfeed (h ▸ hb), fun h ↦ hnul (h ▸ hb)⟩
  have hlong : (other ++ front).length < 255 := by
    rw [htail] at hlength
    rw [length_append] at hlength ⊢
    omega
  obtain ⟨hline, hzero⟩ := isLine_concat hplain hlong
  rw [← hsplit] at hline hzero
  refine ⟨hline, ?_, hzero, ?_⟩
  · rw [EndsLine, hsplit, List.getLast?_concat]
  · rw [lineValue_eq hline hzero, probeLine, if_pos (prefix_append _ _), drop_left, hscan]
    rfl

/-- Only one of the lines can begin with a longer name. -/
theorem head?_of_prefix_probeLine {letter : UInt8} (hapart : ¬param <+: other)
    (hssid : isSsid other = true → ¬other <+: param) (hstarts : param <+: probeLine other letter) :
    (param.drop other.length).head? = some letter := by
  have hlonger : other <+: param := by
    rcases List.prefix_or_prefix_of_prefix hstarts (prefix_append other _) with h | h
    · exact absurd h hapart
    · exact h
  obtain ⟨tail, rfl⟩ := hlonger
  have hplain : ¬isSsid other = true := fun h ↦ hssid h (prefix_append _ _)
  rw [probeLine, probeTail, if_neg hplain, prefix_append_right_inj] at hstarts
  rw [drop_left]
  cases tail with
  | nil =>
    rw [append_nil] at hapart
    exact absurd prefix_rfl hapart
  | cons first rest => exact congrArg some (cons_prefix_cons.mp hstarts).1

/-- Two letters whose lines do not begin with a given name. -/
theorem exists_letters (hapart : ¬param <+: other)
    (hssid : isSsid other = true → ¬other <+: param) :
    ∃ first ∈ letters, ∃ second ∈ letters, first ≠ second ∧
      ¬param <+: probeLine other first ∧ ¬param <+: probeLine other second := by
  have hfree {letter : UInt8} (hne : (param.drop other.length).head? ≠ some letter) :
      ¬param <+: probeLine other letter :=
    fun hstarts ↦ hne (head?_of_prefix_probeLine hapart hssid hstarts)
  by_cases hx : (param.drop other.length).head? = some 120
  · refine ⟨121, by decide, 122, by decide, by decide, hfree ?_, hfree ?_⟩ <;> rw [hx] <;> decide
  · by_cases hy : (param.drop other.length).head? = some 121
    · exact ⟨120, by decide, 122, by decide, by decide, hfree hx, hfree (by rw [hy]; decide)⟩
    · exact ⟨120, by decide, 121, by decide, by decide, hfree hx, hfree hy⟩

theorem ne_break_of_word (hparam : ∀ b ∈ param, isSpace b = false ∧ b ≠ 0) :
    ∀ b ∈ param, b ≠ 13 ∧ b ≠ 10 ∧ b ≠ 0 := fun b hb ↦
  ⟨(ne_break_of_isSpace (hparam b hb).1).1, (ne_break_of_isSpace (hparam b hb).1).2,
    (hparam b hb).2⟩

/-- A line that goes on with one letter after a name. -/
theorem lineValue_letter {letter : UInt8} (hother : IsParam other) (hssid : isSsid other = false)
    (hparam : ∀ b ∈ param, isSpace b = false ∧ b ≠ 0) (hlong : param.length ≤ 127)
    (hstarts : other <+: param) (hletter : letter ∈ letters) :
    IsLine readBufSize (param ++ [letter, 10]) ∧ (0 : UInt8) ∉ param ++ [letter, 10] ∧
      lineValue other (param ++ [letter, 10]) =
        some (.ok (param.drop other.length ++ [letter])) := by
  obtain ⟨tail, rfl⟩ := hstarts
  have hplain : isSpace letter = false ∧ letter ≠ 0 := by
    revert letter
    decide
  have hall : ∀ b ∈ other ++ tail ++ [letter], isSpace b = false ∧ b ≠ 0 := by
    simpa [or_imp, forall_and, hplain] using hparam
  have hsplit : other ++ tail ++ [letter, 10] = (other ++ tail ++ [letter]) ++ [10] := by simp
  have hshort : (other ++ tail ++ [letter]).length < 255 := by
    rw [length_append]
    exact Nat.lt_of_le_of_lt (Nat.add_le_add_right hlong 1) (by decide)
  obtain ⟨hline, hzero⟩ := isLine_concat (ne_break_of_word hall) hshort
  rw [← hsplit] at hline hzero
  have hscan : scanWord (tail ++ [letter, 10]) = tail ++ [letter] := by
    have hwhole : tail ++ [letter, 10] = (tail ++ [letter]) ++ [10] := by simp
    rw [hwhole]
    exact scanWord_concat fun b hb ↦
      (hall b (append_assoc other tail [letter] ▸ mem_append_right other hb)).1
  refine ⟨hline, hzero, ?_⟩
  rw [lineValue_eq hline hzero, append_assoc, if_pos (prefix_append _ _), drop_left, drop_left,
    scanValue, hssid, if_neg Bool.false_ne_true, hscan, storeValue, if_pos]
  have hpos : 0 < other.length := length_pos_of_ne_nil hother.1
  rw [length_append] at hlong
  rw [length_append, length_singleton, paramValueSize]
  omega

/-- Lines that a harmless write can replace have the same for the other parameter. -/
theorem HarmlessTo.same {line line' : Bytes} (hharmless : HarmlessTo other param value)
    (hline : IsLine readBufSize line) (hnul : (0 : UInt8) ∉ line) (hstarts : param <+: line)
    (hline' : IsLine readBufSize line') (hnul' : (0 : UInt8) ∉ line') (hstarts' : param <+: line') :
    lineValue other line = lineValue other line' :=
  (hharmless line hline hnul hstarts).trans (hharmless line' hline' hnul' hstarts').symm

/-- What is replaced is not a beginning of the other name. -/
theorem HarmlessTo.not_before (hharmless : HarmlessTo other param value) (hother : IsParam other) :
    ¬param <+: other := by
  intro hstarts
  have hx : (120 : UInt8) ∈ letters := by decide
  have hy : (121 : UInt8) ∈ letters := by decide
  obtain ⟨hline, -, hnul, hvalue⟩ := probeLine_spec hother hx
  obtain ⟨hline', -, hnul', hvalue'⟩ := probeLine_spec hother hy
  have hsame := hharmless.same hline hnul (hstarts.trans (prefix_append _ _)) hline' hnul'
    (hstarts.trans (prefix_append _ _))
  rw [hvalue, hvalue'] at hsame
  exact absurd hsame (by decide)

/-- A name without blanks does not begin with that of a plain parameter. -/
theorem HarmlessTo.not_behind (hharmless : HarmlessTo other param value) (hother : IsParam other)
    (hssid : isSsid other = false) (hparam : ∀ b ∈ param, isSpace b = false ∧ b ≠ 0)
    (hlong : param.length ≤ 127) : ¬other <+: param := by
  intro hstarts
  have hx : (120 : UInt8) ∈ letters := by decide
  have hy : (121 : UInt8) ∈ letters := by decide
  obtain ⟨hline, hnul, hvalue⟩ := lineValue_letter hother hssid hparam hlong hstarts hx
  obtain ⟨hline', hnul', hvalue'⟩ := lineValue_letter hother hssid hparam hlong hstarts hy
  have hsame := hharmless.same hline hnul (prefix_append _ _) hline' hnul' (prefix_append _ _)
  rw [hvalue, hvalue'] at hsame
  simp at hsame

theorem lineValue_of_apart {line : Bytes} (hbefore : ¬param <+: other) (hbehind : ¬other <+: param)
    (hline : IsLine readBufSize line) (hnul : (0 : UInt8) ∉ line) (hstarts : param <+: line) :
    lineValue other line = none := by
  rw [lineValue_eq hline hnul, if_neg]
  exact fun h ↦ (List.prefix_or_prefix_of_prefix hstarts h).elim hbefore hbehind

/-- Nothing is found in a text whose lines fit into the buffer and do not begin with the name. -/
theorem findSome?_lineValue_eq_none_iff {text : Bytes} (hnul : (0 : UInt8) ∉ text) :
    (lines readBufSize text).findSome? (lineValue other) = none ↔
      ∀ line ∈ lines readBufSize text, line.length ≠ readBufSize ∧ ¬other <+: line := by
  rw [List.findSome?_eq_none_iff]
  refine forall₂_congr fun line hline ↦ ?_
  by_cases hfull : line.length = readBufSize
  · rw [lineValue, if_pos hfull]
    exact iff_of_false (Option.some_ne_none _) fun h ↦ h.1 hfull
  · rw [lineValue_eq (isLine_of_mem_lines (by decide) hline hfull) (nul_of_mem_lines hnul hline)]
    simp [hfull]

/-- What harmless means for a name without blanks: no name begins with the other one, and no line of
the printed text begins with the other name or fills the line buffer. -/
theorem harmlessTo_iff (hother : IsParam other) (hssid : isSsid other = true → ¬other <+: param)
    (hparam : ∀ b ∈ param, isSpace b = false ∧ b ≠ 0) (hlong : param.length ≤ 127)
    (hnul : (0 : UInt8) ∉ value) :
    HarmlessTo other param value ↔ ¬param <+: other ∧ ¬other <+: param ∧
      ∀ line ∈ lines readBufSize (paramText param value),
        line.length ≠ readBufSize ∧ ¬other <+: line := by
  have hprinted : (0 : UInt8) ∉ paramText param value := by
    have hzero : (0 : UInt8) ∉ param := fun h ↦ (hparam _ h).2 rfl
    unfold paramText
    split <;> simp [hzero, hnul]
  rw [← findSome?_lineValue_eq_none_iff hprinted]
  constructor
  · intro hharmless
    have hbefore := hharmless.not_before hother
    have hbehind : ¬other <+: param := by
      by_cases hquoted : isSsid other = true
      · exact hssid hquoted
      · exact hharmless.not_behind hother (Bool.eq_false_iff.mpr hquoted) hparam hlong
    obtain ⟨hline, hzero⟩ := isLine_concat (ne_break_of_word hparam) (by omega)
    rw [← hharmless _ hline hzero (prefix_append _ _)]
    exact ⟨hbefore, hbehind, lineValue_of_apart hbefore hbehind hline hzero (prefix_append _ _)⟩
  · rintro ⟨hbefore, hbehind, hnone⟩ line hline hzero hstarts
    rw [hnone, lineValue_of_apart hbefore hbehind hline hzero hstarts]

end Probes

/-! ### The files after an update -/

section Files

variable {group : Group} {name other param value text : Bytes}

theorem isText_of_isLine {line : Bytes} (hline : IsLine readBufSize line)
    (hnul : (0 : UInt8) ∉ line) : IsText line := by
  refine ⟨hnul, fun read hread ↦ ?_⟩
  rw [lines_of_isLine hline, mem_singleton] at hread
  rw [hread]
  exact Nat.ne_of_lt hline.short

/-- Two lines, one after the other. -/
theorem lines_two {first second : Bytes} (hfirst : IsLine readBufSize first) (hends : EndsLine first)
    (hsecond : IsLine readBufSize second) : lines readBufSize (first ++ second) = [first, second] := by
  rw [lines_append hends, lines_of_isLine hfirst, lines_of_isLine hsecond]
  rfl

/-- A file without a line for the parameter is written as it is. -/
theorem rewriteFile_of_unmatched (htext : IsText text) (hreturn : (13 : UInt8) ∉ text)
    (hnone : ∀ line ∈ lines readBufSize text, ¬param <+: line) :
    rewriteFile param value text = text := by
  have hcopy : (lines readBufSize text).map (rewriteLine param value) = lines readBufSize text := by
    conv_rhs => rw [← map_id (lines readBufSize text)]
    apply map_congr_left
    intro line hline
    rw [rewriteLine_eq ((htext.rewritable param).replaced _ hline), if_neg (hnone line hline)]
    rfl
  have hsame : text.map lineByte = text := by
    conv_rhs => rw [← map_id text]
    apply map_congr_left
    intro b hb
    exact lineByte_of_ne fun h ↦ hreturn (h ▸ hb)
  rw [rewriteFile, hcopy, flatten_lines, hsame]

/-- The writes for a pair, on a file without lines for the encryption of the access point if the
pair sets it. -/
theorem runWrites_writesFor (htext : IsText text) (hreturn : (13 : UInt8) ∉ text)
    (hkey : group = .wifi ∧ name = ascii "ap_key" → ∀ line ∈ lines readBufSize text,
      ¬ascii "AP_AUTH_MODE" <+: line ∧ ¬ascii "AP_ENCRYPT_TYPE" <+: line) :
    runWrites writeParamStr (writesFor group name param value) ⟨some text, true⟩ =
      .ok (true, ⟨some (rewriteFile param value text), true⟩) := by
  unfold writesFor
  split
  · rename_i hpair
    have hmode := hkey hpair
    rw [runWrites, writeParamStr_text htext,
      rewriteFile_of_unmatched htext hreturn fun line hline ↦ (hmode line hline).1, ok_bind]
    dsimp only
    rw [if_pos rfl, runWrites, writeParamStr_text htext,
      rewriteFile_of_unmatched htext hreturn fun line hline ↦ (hmode line hline).2, ok_bind]
    dsimp only
    rw [if_pos rfl, runWrites, writeParamStr_text htext, ok_bind]
    rfl
  · rw [runWrites, writeParamStr_text htext, ok_bind]
    rfl

end Files

/-! ### Which pairs are harmless -/

section Pairs

variable {group : Group} {name other param value : Bytes}

/-- What a group's pair can be for: a parameter of the table, or any text in the `nabto` group,
which has no network names. -/
theorem param_cases (hgroup : group = .wifi ∨ group = .stream ∨ group = .nabto)
    (hparam : paramOf group name = some param) (hother : other ∈ group.params) :
    param ∈ group.params ∨ isSsid other = false ∧ param = name := by
  rcases hgroup with rfl | rfl | rfl
  · exact .inl (param_mem rfl hparam)
  · exact .inl (param_mem rfl hparam)
  · have hplain : ∀ other ∈ Group.nabto.params, isSsid other = false := by decide
    exact .inr ⟨hplain other hother, (Option.some.inj hparam).symm⟩

/-- What is read for the other parameter in the probes. -/
structure SameInProbes (other param value : Bytes) : Prop where
  /-- A file of one line. -/
  alone : ∀ line, IsLine readBufSize line → (0 : UInt8) ∉ line → param <+: line →
    ((lines readBufSize (paramText param value)).findSome? (lineValue other)).getD (.ok []) =
      (lineValue other line).getD (.ok [])
  /-- A file of two lines, of which the second one has the other parameter. -/
  before : ∀ line, IsLine readBufSize line → EndsLine line → (0 : UInt8) ∉ line → param <+: line →
    ∀ letter ∈ letters, ¬param <+: probeLine other letter →
      ((lines readBufSize (paramText param value)).findSome? (lineValue other)).getD (.ok [letter]) =
        (lineValue other line).getD (.ok [letter])

/-- What is found in a line is what is found in the printed text, if the line ends. -/
theorem SameInProbes.of_endsLine {line : Bytes} (hsame : SameInProbes other param value)
    (hapart : ¬param <+: other) (hssid : isSsid other = true → ¬other <+: param)
    (hline : IsLine readBufSize line) (hends : EndsLine line) (hnul : (0 : UInt8) ∉ line)
    (hstarts : param <+: line) :
    lineValue other line =
      (lines readBufSize (paramText param value)).findSome? (lineValue other) := by
  obtain ⟨first, hfirst, second, hsecond, hne, hfree, hfree'⟩ := exists_letters hapart hssid
  have h₁ := hsame.before line hline hends hnul hstarts first hfirst hfree
  have h₂ := hsame.before line hline hends hnul hstarts second hsecond hfree'
  revert h₁ h₂
  cases lineValue other line with
  | none =>
    cases (lines readBufSize (paramText param value)).findSome? (lineValue other) with
    | none => exact fun _ _ ↦ rfl
    | some found =>
      intro h₁ h₂
      have hletters := Except.ok.inj (h₁.symm.trans h₂)
      exact absurd (List.cons.inj hletters).1 hne
  | some result =>
    cases (lines readBufSize (paramText param value)).findSome? (lineValue other) with
    | none =>
      intro h₁ h₂
      have hletters := Except.ok.inj (h₁.trans h₂.symm)
      exact absurd (List.cons.inj hletters).1 hne
    | some found =>
      intro h₁ _
      exact congrArg some h₁.symm

/-- The name of the other parameter does not begin with what is replaced. -/
theorem SameInProbes.not_prefix (hsame : SameInProbes other param value) (hother : IsParam other) :
    ¬param <+: other := by
  intro hstarts
  have hprobe (letter : UInt8) (hletter : letter ∈ letters) :
      ((lines readBufSize (paramText param value)).findSome? (lineValue other)).getD (.ok []) =
        .ok [letter] := by
    obtain ⟨hline, -, hnul, hvalue⟩ := probeLine_spec hother hletter
    rw [hsame.alone _ hline hnul (hstarts.trans (prefix_append _ _)), hvalue]
    rfl
  have hletters := Except.ok.inj ((hprobe 120 (by decide)).symm.trans
    (hprobe 121 (by decide)))
  exact absurd hletters (by decide)

/-- A line that does not end, cut so that it can be ended. -/
theorem isLine_cut {line : Bytes} (hline : IsLine readBufSize line) (hends : ¬EndsLine line) :
    IsLine readBufSize (line.take 254 ++ [10]) ∧ (10 : UInt8) ∉ line := by
  have hfeed : (10 : UInt8) ∉ line := by
    intro hmem
    rw [← dropLast_append_getLast hline.ne_nil, mem_append, mem_singleton] at hmem
    rcases hmem with hmem | hlast
    · exact hline.no_feed hmem
    · rw [EndsLine, List.getLast?_eq_getLast_of_ne_nil hline.ne_nil, ← hlast] at hends
      exact hends rfl
  refine ⟨⟨by simp, ?_, ?_, ?_⟩, hfeed⟩
  · rw [length_append, length_take, length_singleton, readBufSize]
    omega
  · rw [mem_append, mem_singleton]
    exact fun hreturn ↦ hreturn.elim (fun h ↦ hline.no_return (mem_of_mem_take h)) (by decide)
  · rw [dropLast_concat]
    exact fun h ↦ hfeed (mem_of_mem_take h)

/-- Whether a short line begins with the name of a parameter does not depend on how it ends. -/
theorem prefix_cut_iff {line : Bytes} (hother : IsParam other) :
    other <+: line.take 254 ++ [10] ↔ other <+: line := by
  have hshort := hother.2.1
  have hfeed : (10 : UInt8) ∉ other := fun hmem ↦ (hother.ne_break _ hmem).2 rfl
  constructor
  · intro hstarts
    rcases prefix_concat_iff.mp hstarts with heq | hstarts
    · rw [heq] at hfeed
      exact absurd (mem_append_right _ (mem_singleton_self _)) hfeed
    · exact hstarts.trans (List.take_prefix 254 line)
  · intro hstarts
    exact (prefix_take_iff.mpr ⟨hstarts, by omega⟩).trans (prefix_append _ _)

/-- A name that fills the line buffer with the blank after it. -/
theorem lineValue_fullLine (hparam : ∀ b ∈ param, b ≠ 13 ∧ b ≠ 10) (hfull : param.length = 255) :
    (lines readBufSize (paramText param value)).findSome? (lineValue other) =
      some (.error .overflow) := by
  have hfirst (rest : Bytes) : (lines readBufSize (param ++ 32 :: rest)).findSome? (lineValue other) =
      some (.error .overflow) := by
    have hcut := @linesFrom_stop readBufSize [] param rest 32 hparam
      (by rw [hfull]; decide) (.inr (by rw [hfull]; rfl))
    rw [lines, hcut, List.findSome?_cons, lineValue, if_pos]
    rw [nil_append, length_append, hfull]
    rfl
  unfold paramText
  split
  · exact hfirst _
  · exact hfirst _

theorem SameInProbes.harmlessTo (hsame : SameInProbes other param value) (hother : IsParam other)
    (hssid : isSsid other = true → ¬other <+: param) : HarmlessTo other param value := by
  intro line hline hnul hstarts
  have hapart := hsame.not_prefix hother
  by_cases hends : EndsLine line
  · exact hsame.of_endsLine hapart hssid hline hends hnul hstarts
  · obtain ⟨hcut, hfeed⟩ := isLine_cut hline hends
    have halone := hsame.alone line hline hnul hstarts
    have hlong := hstarts.length_le
    have hshort := hline.short
    rw [readBufSize] at hshort
    by_cases hroom : param.length ≤ 254
    · -- The line is compared with one that ends.
      have hnul' : (0 : UInt8) ∉ line.take 254 ++ [10] := by
        rw [mem_append, mem_singleton]
        exact fun hmem ↦ hmem.elim (fun h ↦ hnul (mem_of_mem_take h)) (by decide)
      have hcutValue := hsame.of_endsLine hapart hssid hcut List.getLast?_concat hnul'
        ((prefix_take_iff.mpr ⟨hstarts, hroom⟩).trans (prefix_append _ _))
      rw [← hcutValue] at halone ⊢
      rw [lineValue_eq hline hnul, lineValue_eq hcut hnul'] at halone ⊢
      simp only [prefix_cut_iff hother] at halone ⊢
      split at halone
      · rename_i hfound
        rw [if_pos hfound, if_pos hfound]
        exact congrArg some halone.symm
      · rename_i hmissing
        rw [if_neg hmissing, if_neg hmissing]
    · -- The line is the name itself, and what is printed for it does not fit into the buffer.
      obtain rfl : param = line := hstarts.eq_of_length (by omega)
      have hplain : ∀ b ∈ param, b ≠ 13 ∧ b ≠ 10 := fun b hb ↦
        ⟨fun h ↦ hline.no_return (h ▸ hb), fun h ↦ hfeed (h ▸ hb)⟩
      rw [lineValue_fullLine hplain (by omega)] at halone ⊢
      cases hvalue : lineValue other param with
      | none =>
        rw [hvalue] at halone
        cases halone
      | some result =>
        rw [hvalue] at halone
        exact congrArg some halone.symm

end Pairs

/-! ### Updates of one parameter -/

/-- Every update that is accepted leaves another parameter as it was. A line with a NUL that is
copied runs into the next one, so the first write replaces the lines that have one. -/
def Unchanged (group : Group) (mem : Bytes) (list : List (Bytes × Bytes)) (other : Bytes) : Prop :=
  ∀ s s' text, s.file = some text →
    (∀ write ∈ list.head?, ∀ line ∈ lines readBufSize text, (0 : UInt8) ∈ line →
      write.1 <+: cstr line) →
    configsUpdate writeParamStr group mem s = .ok (.done, s') →
      readParamStr s'.file other = readParamStr s.file other

section Updates

variable {group : Group} {name other param value mem text : Bytes}

/-- A last line with the parameter is read if no line before it has the parameter. -/
theorem valueIn_concat {line : Bytes} {result : Except Fault Bytes} (read : List Bytes)
    (hline : lineValue other line = some result) :
    valueIn other (read ++ [line]) = (read.findSome? (lineValue other)).getD result := by
  rw [valueIn, List.findSome?_append, List.findSome?_singleton, hline]
  cases read.findSome? (lineValue other) <;> rfl

theorem Unchanged.valueIn_rewrite {list : List (Bytes × Bytes)}
    (hunchanged : Unchanged group mem list other)
    (hplanned : plannedWrites group (mem.length + 1) mem =
      .ok (.done, writesFor group name param value))
    (htext : IsText text) (hreturn : (13 : UInt8) ∉ text)
    (hkey : group = .wifi ∧ name = ascii "ap_key" → ∀ line ∈ lines readBufSize text,
      ¬ascii "AP_AUTH_MODE" <+: line ∧ ¬ascii "AP_ENCRYPT_TYPE" <+: line) :
    valueIn other (lines readBufSize (rewriteFile param value text)) =
      valueIn other (lines readBufSize text) := by
  have hdone : UpdateEnd.done ≠ .writeFailed := by decide
  have hupdate := (updateLoop_eq_ok_iff hdone).mpr
    ⟨_, hplanned, runWrites_writesFor htext hreturn hkey⟩
  have hread := hunchanged _ _ text rfl
    (fun _ _ line hline h ↦ absurd h (nul_of_mem_lines htext.no_nul hline)) hupdate
  rw [readParamStr, readParamStr] at hread
  revert hread
  cases valueIn other (lines readBufSize (rewriteFile param value text)) with
  | error fault =>
    cases valueIn other (lines readBufSize text) with
    | error fault' => exact fun hread ↦ congrArg _ (Except.error.inj hread)
    | ok after =>
      intro hread
      cases hread
  | ok before =>
    cases valueIn other (lines readBufSize text) with
    | error fault' =>
      intro hread
      cases hread
    | ok after => exact fun hread ↦ congrArg _ (Option.some.inj (Except.ok.inj hread))

/-- A key for the access point replaces no line that begins with another parameter of the table. -/
theorem key_lines (hparam : paramOf group name = some param) (hother : other ∈ group.params)
    (hapart : ∀ write ∈ writesFor group name param value, write.1 ≠ other)
    (hkey : group = .wifi ∧ name = ascii "ap_key") {line : Bytes}
    (hline : param <+: line ∨ other <+: line) :
    ¬ascii "AP_AUTH_MODE" <+: line ∧ ¬ascii "AP_ENCRYPT_TYPE" <+: line := by
  obtain ⟨rfl, rfl⟩ := hkey
  obtain rfl : ascii "AP_AUTH_KEY" = param := Option.some.inj hparam
  rw [writesFor, if_pos ⟨rfl, rfl⟩] at hapart
  simp only [forall_mem_cons] at hapart
  obtain ⟨hmode, htype, -⟩ := hapart
  have hmodeMem : ascii "AP_AUTH_MODE" ∈ Group.wifi.params := by decide
  have htypeMem : ascii "AP_ENCRYPT_TYPE" ∈ Group.wifi.params := by decide
  rcases hline with hline | hline
  · have hkeyMem : ascii "AP_AUTH_KEY" ∈ Group.wifi.params := by decide
    exact ⟨not_prefix_of_apart hkeyMem hmodeMem (by decide) hline,
      not_prefix_of_apart hkeyMem htypeMem (by decide) hline⟩
  · exact ⟨not_prefix_of_apart hother hmodeMem hmode.symm hline,
      not_prefix_of_apart hother htypeMem htype.symm hline⟩

theorem Unchanged.sameInProbes {list : List (Bytes × Bytes)}
    (hunchanged : Unchanged group mem list other)
    (hplanned : plannedWrites group (mem.length + 1) mem =
      .ok (.done, writesFor group name param value))
    (hparam : paramOf group name = some param) (hother : other ∈ group.params)
    (hapart : ∀ write ∈ writesFor group name param value, write.1 ≠ other) :
    SameInProbes other param value := by
  constructor
  · intro line hline hnul hstarts
    have htext := isText_of_isLine hline hnul
    have hlines := lines_of_isLine hline
    have hsame := hunchanged.valueIn_rewrite hplanned htext hline.no_return fun hkey read hread ↦ by
      rw [hlines, mem_singleton] at hread
      exact key_lines hparam hother hapart hkey (.inl (hread ▸ hstarts))
    rw [lines_rewrite (htext.rewritable param), hlines, valueIn, valueIn, flatMap_singleton,
      if_pos hstarts, List.findSome?_singleton] at hsame
    exact hsame
  · intro line hline hends hnul hstarts letter hletter hfree
    obtain ⟨hprobe, -, hnul', hvalue⟩ := probeLine_spec (isParam_of_mem hother) hletter
    have hlines := lines_two hline hends hprobe
    have htext : IsText (line ++ probeLine other letter) := by
      refine ⟨by simp [hnul, hnul'], fun read hread ↦ ?_⟩
      rw [hlines, mem_pair] at hread
      rcases hread with rfl | rfl
      · exact Nat.ne_of_lt hline.short
      · exact Nat.ne_of_lt hprobe.short
    have hreturn : (13 : UInt8) ∉ line ++ probeLine other letter := by
      simp [hline.no_return, hprobe.no_return]
    have hsame := hunchanged.valueIn_rewrite hplanned htext hreturn fun hkey read hread ↦ by
      rw [hlines, mem_pair] at hread
      rcases hread with rfl | rfl
      · exact key_lines hparam hother hapart hkey (.inl hstarts)
      · exact key_lines hparam hother hapart hkey (.inr (prefix_append _ _))
    rw [lines_rewrite (htext.rewritable param), hlines, flatMap_cons, flatMap_singleton,
      if_pos hstarts, if_neg hfree, valueIn_concat _ hvalue] at hsame
    rw [hsame, ← singleton_append, valueIn_concat _ hvalue, List.findSome?_singleton]

theorem mem_writesFor : (param, value) ∈ writesFor group name param value := by
  unfold writesFor
  split <;> simp

/-- What is written with a key for the access point is one line. -/
theorem harmlessTo_constant {field text : Bytes} (hfield : field ∈ group.params)
    (hother : other ∈ group.params) (hne : field ≠ other) (hlength : text.length ≤ 127)
    (hnul : (0 : UInt8) ∉ text) (hlines : lines readBufSize (paramText field text) =
      [paramText field text]) : HarmlessTo other field text := by
  obtain ⟨-, hshort, hplain⟩ := isParam_of_mem hfield
  rw [harmlessTo_iff (isParam_of_mem hother) (fun _ ↦ params_apart hother hfield hne.symm)
    (fun b hb ↦ ⟨(hplain b hb).1, (hplain b hb).2.2⟩) (by omega) hnul]
  refine ⟨params_apart hfield hother hne, params_apart hother hfield hne.symm, ?_⟩
  intro line hline
  refine ⟨(isText_paramText (isParam_of_mem hfield) hlength hnul).short line hline, ?_⟩
  rw [hlines, mem_singleton] at hline
  rw [hline]
  apply not_prefix_of_apart hfield hother hne
  unfold paramText
  split <;> exact prefix_append _ _

/-- All writes of a pair are harmless if that of its parameter is. -/
theorem harmless_writesFor (hparam : paramOf group name = some param) (hother : other ∈ group.params)
    (hapart : ∀ write ∈ writesFor group name param value, write.1 ≠ other)
    (hnul : param ≠ [] ∧ (0 : UInt8) ∉ param ∧ (0 : UInt8) ∉ value)
    (hharmless : HarmlessTo other param value) :
    ∀ write ∈ writesFor group name param value,
      write.1 ≠ [] ∧ (0 : UInt8) ∉ write.1 ∧ (0 : UInt8) ∉ write.2 ∧
        HarmlessTo other write.1 write.2 := by
  unfold writesFor at hapart ⊢
  split at hapart
  · rename_i hkey
    obtain ⟨rfl, rfl⟩ := hkey
    simp only [forall_mem_cons] at hapart
    obtain ⟨hmode, htype, -⟩ := hapart
    rw [if_pos ⟨rfl, rfl⟩]
    simp only [forall_mem_cons]
    refine ⟨⟨by decide, by decide, by decide, ?_⟩, ⟨by decide, by decide, by decide, ?_⟩,
      ⟨hnul.1, hnul.2.1, hnul.2.2, hharmless⟩, ?_⟩
    · exact harmlessTo_constant (by decide) hother hmode (by decide) (by decide) (by decide +kernel)
    · exact harmlessTo_constant (by decide) hother htype (by decide) (by decide) (by decide +kernel)
    · exact fun _ hmem ↦ absurd hmem not_mem_nil
  · rw [if_neg ‹_›]
    intro write hwrite
    rw [mem_singleton.mp hwrite]
    exact ⟨hnul.1, hnul.2.1, hnul.2.2, hharmless⟩

/-- A single pair `name=value` that is accepted leaves another parameter of the table as it was, in
every file whose lines with a NUL are replaced, exactly if what is printed for the pair is harmless
to that parameter. -/
theorem other_param_unchanged_iff {decoded rest : Bytes} {list : List (Bytes × Bytes)}
    (hgroup : group = .wifi ∨ group = .stream ∨ group = .nabto) (hne : name ≠ [])
    (hname : ∀ b ∈ name, b ≠ 38 ∧ b ≠ 61 ∧ b ≠ 0) (hvalue : ∀ b ∈ value, b ≠ 38 ∧ b ≠ 0)
    (hparam : paramOf group name = some param) (hdecoded : unescape value = some decoded)
    (hmem : mem = (name ++ 61 :: value) ++ 0 :: rest)
    (haccepted : plannedWrites group (mem.length + 1) mem = .ok (.done, list))
    (hother : other ∈ group.params) (hapart : ∀ write ∈ list, write.1 ≠ other) :
    Unchanged group mem list other ↔ HarmlessTo other param (cstr decoded) := by
  have hplanned := haccepted
  rw [hmem] at hplanned
  obtain ⟨hshort, rfl⟩ := plannedWrites_accepted hvalue hparam hdecoded hne hname hplanned
  constructor
  · intro hunchanged
    refine (hunchanged.sameInProbes haccepted hparam hother hapart).harmlessTo
      (isParam_of_mem hother) fun hssid ↦ ?_
    rcases param_cases hgroup hparam hother with hknown | ⟨hplain, -⟩
    · exact params_apart hother hknown (hapart _ mem_writesFor).symm
    · rw [hplain] at hssid
      cases hssid
  · intro hharmless s s' text hfile htext hupdate
    have hdone : UpdateEnd.done ≠ .writeFailed := by decide
    obtain ⟨list, hlist, hrun⟩ := (updateLoop_eq_ok_iff hdone).mp hupdate
    obtain ⟨-, rfl⟩ := Prod.mk.inj (Except.ok.inj (haccepted.symm.trans hlist))
    have hnul : param ≠ [] ∧ (0 : UInt8) ∉ param := by
      rcases param_cases hgroup hparam hother with hknown | ⟨-, rfl⟩
      · obtain ⟨hne, -, hplain⟩ := isParam_of_mem hknown
        exact ⟨hne, fun hzero ↦ (hplain _ hzero).2.2 rfl⟩
      · exact ⟨hne, fun hzero ↦ (hname _ hzero).2.2 rfl⟩
    exact readParamStr_runWrites (harmless_writesFor hparam hother hapart
      ⟨hnul.1, hnul.2, nul_notMem_cstr _⟩ hharmless) hfile htext hrun

end Updates

/-- A request for another channel, and the memory after it. -/
def channelQuery : Bytes := (ascii "ap_channel" ++ 61 :: ascii "11") ++ 0 :: ascii "HTTP/1.1"

/-- A request for a key with a line break. -/
def keyQuery : Bytes := ascii "sta_key=x%0AAP_CHANNEL%2011" ++ 0 :: ascii "HTTP/1.1"

/-- A network configuration. -/
def networkFile : Storage := ⟨some (ascii "AUTH_KEY old\nAP_CHANNEL 6\n"), true⟩

theorem other_param_unchanged_channel :
    plannedWrites .wifi (channelQuery.length + 1) channelQuery =
        .ok (.done, [(ascii "AP_CHANNEL", ascii "11")]) ∧
      Unchanged .wifi channelQuery [(ascii "AP_CHANNEL", ascii "11")] (ascii "AUTH_KEY") := by
  have haccepted : plannedWrites .wifi (channelQuery.length + 1) channelQuery =
      .ok (.done, [(ascii "AP_CHANNEL", ascii "11")]) := by decide +kernel
  have hname : ∀ b ∈ ascii "ap_channel", b ≠ 38 ∧ b ≠ 61 ∧ b ≠ 0 := by decide
  have hvalue : ∀ b ∈ ascii "11", b ≠ 38 ∧ b ≠ 0 := by decide
  have hparam : paramOf .wifi (ascii "ap_channel") = some (ascii "AP_CHANNEL") := by decide
  have hdecoded : unescape (ascii "11") = some (ascii "11") := by decide
  have hchannel : ascii "AP_CHANNEL" ∈ Group.wifi.params := by decide
  have hother : ascii "AUTH_KEY" ∈ Group.wifi.params := by decide
  have hapart : ∀ write ∈ [(ascii "AP_CHANNEL", ascii "11")], write.1 ≠ ascii "AUTH_KEY" := by decide
  have hharmless : HarmlessTo (ascii "AUTH_KEY") (ascii "AP_CHANNEL") (cstr (ascii "11")) :=
    harmlessTo_constant hchannel hother (by decide) (by decide) (by decide) (by decide +kernel)
  exact ⟨haccepted, (other_param_unchanged_iff (.inl rfl) (by decide) hname hvalue hparam hdecoded
    rfl haccepted hother hapart).mpr hharmless⟩

/-- The new key sets the channel. -/
theorem key_sets_channel :
    configsUpdate writeParamStr .wifi keyQuery networkFile = .ok (.done,
        ⟨some (ascii "AUTH_KEY x\nAP_CHANNEL 11\nAP_CHANNEL 6\n"), true⟩) ∧
      readParamStr networkFile.file (ascii "AP_CHANNEL") = .ok (some (ascii "6")) ∧
      readParamStr (some (ascii "AUTH_KEY x\nAP_CHANNEL 11\nAP_CHANNEL 6\n")) (ascii "AP_CHANNEL") =
        .ok (some (ascii "11")) := by
  decide +kernel

end WisCam.Rest
