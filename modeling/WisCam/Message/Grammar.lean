import Mathlib.Data.Bool.AllAny
import Mathlib.Tactic.Tauto
import WisCam.Foundations.Scan
import WisCam.Message.Pmsg

/-!
# What `parse_pmsg` accepts

The pieces of a message as a grammar, stated on bytes alone: words and lines that the parser cuts
out of its buffer, and a header line (`FieldLine`), a record of its parts with the conditions on
them. For every piece of the parser there is one lemma that evaluates it on text of the grammar
(`cutWord_at`, `cutLine_at`, `parseField_at`) and one that finds the text when the piece succeeds
(`of_cutWord`, `of_cutLine`, `of_parseField`), so that the parser's loop can be followed line by
line.
-/

set_option autoImplicit false

namespace WisCam.Message

open Foundations List

/-! ### Cutting words and lines -/

/-- A byte that ends a line for the parser: NUL, CR or LF. -/
def EndsLine (b : UInt8) : Prop := b = 0 ∨ b = 13 ∨ b = 10

instance : DecidablePred EndsLine := fun b ↦ inferInstanceAs (Decidable (b = 0 ∨ b = 13 ∨ b = 10))

/-- No byte of the text ends a line. -/
def OneLine (text : Bytes) : Prop := ∀ b ∈ text, ¬ EndsLine b

instance : DecidablePred OneLine := fun text ↦
  decidable_of_iff ((text.all fun b ↦ decide (¬ EndsLine b)) = true) List.all_iff_forall_prop

/-- A text of one line without a space. -/
def OneWord (text : Bytes) : Prop := ∀ b ∈ text, b ≠ 32 ∧ ¬ EndsLine b

instance : DecidablePred OneWord := fun text ↦
  decidable_of_iff ((text.all fun b ↦ decide (b ≠ 32 ∧ ¬ EndsLine b)) = true)
    List.all_iff_forall_prop

variable {word : Bytes}

theorem delim_append {term1 term2 : UInt8} {back : Bytes}
    (hword : ∀ b ∈ word, b ≠ term1 ∧ b ≠ term2 ∧ b ≠ 13 ∧ b ≠ 10)
    (hback : ∀ b, back.head? = some b → b = term1 ∨ b = term2 ∨ b = 13 ∨ b = 10) :
    delim (word ++ back) term1 term2 = word.length := by
  unfold delim
  rw [takeWhile_append_stop]
  · intro b hb
    simpa [and_assoc] using hword b hb
  · intro b hb
    simp only [Bool.not_eq_false', Bool.or_eq_true, beq_iff_eq, or_assoc]
    exact hback b hb

theorem delim_oneWord {back : Bytes} (hword : OneWord word) :
    delim (word ++ 32 :: back) 32 0 = word.length := by
  refine delim_append (fun b hb ↦ ?_) (fun b hb ↦ .inl (Option.some.inj hb).symm)
  obtain ⟨hspace, hline⟩ := hword b hb
  unfold EndsLine at hline
  tauto

variable {rest : Bytes}

section Cutting

variable {d front back : Bytes} {i : ℕ}

theorem skipSpaces_at {count : ℕ} (hcut : CutAt d i front (List.replicate count 32 ++ back))
    (hback : back.head? ≠ some 32) : skipSpaces d i = i + count := by
  unfold skipSpaces
  rw [hcut.drop, takeWhile_append_stop, length_replicate]
  · intro b hb
    simp [eq_of_mem_replicate hb]
  · intro b hb
    have hne : b ≠ 32 := fun h ↦ hback (h ▸ hb)
    simpa using hne

/-- A text is a number of spaces followed by something else. -/
theorem exists_spaces (text : Bytes) :
    ∃ count back, text = List.replicate count 32 ++ back ∧ back.head? ≠ some 32 := by
  obtain ⟨front, back, htext, hfront, hback⟩ := exists_takeWhile_split (· == 32) text
  refine ⟨front.length, back, ?_, fun hspace ↦ ?_⟩
  · rw [htext, ← eq_replicate_iff.mpr ⟨rfl, fun b hb ↦ by simpa using hfront b hb⟩]
  · simpa using hback 32 hspace

theorem byteAt_at {b : UInt8} (hcut : CutAt d i front (b :: back)) : byteAt d i = .ok b := by
  rw [byteAt, hcut.get]
  rfl

theorem putNul_at {b : UInt8} (hcut : CutAt d i front (b :: back)) :
    putNul d i = .ok (d.set i 0) :=
  if_pos hcut.lt

theorem cutWord_at {count : ℕ}
    (hcut : CutAt d i front (word ++ 32 :: (List.replicate count 32 ++ back)))
    (hword : OneWord word) (hback : back.head? ≠ some 32) :
    ∃ d' i', cutWord d i = .ok (d', i') ∧
      CutAt d' i' (front ++ (word ++ 0 :: List.replicate count 32)) back := by
  have hspaces := (hcut.move.set 0).next
  refine ⟨d.set (i + word.length) 0, i + word.length + 1 + count, ?_, ?_⟩
  · unfold cutWord
    dsimp only
    rw [hcut.drop, delim_oneWord hword, hcut.move.get, putNul_at hcut.move, ok_bind,
      skipSpaces_at hspaces hback]
    rfl
  · simpa only [append_assoc, singleton_append, length_replicate] using hspaces.move

theorem of_cutWord {result : Bytes × ℕ} (hcut : CutAt d i front rest)
    (hok : cutWord d i = .ok result) :
    ∃ word count back, rest = word ++ 32 :: (List.replicate count 32 ++ back) ∧ OneWord word ∧
      back.head? ≠ some 32 ∧
        CutAt result.1 result.2 (front ++ (word ++ 0 :: List.replicate count 32)) back := by
  obtain ⟨word, stopped, rfl, hword, hstop⟩ := exists_takeWhile_split
    (fun b : UInt8 ↦ !(b == 32 || b == 0 || b == 13 || b == 10)) rest
  have hplain : OneWord word := by
    intro b hb
    have := hword b hb
    simp only [Bool.not_eq_true', Bool.or_eq_false_iff, beq_eq_false_iff_ne] at this
    exact ⟨this.1.1.1, by unfold EndsLine; tauto⟩
  have hspace : stopped.head? = some 32 := by
    unfold cutWord at hok
    dsimp only at hok
    rw [hcut.drop, delim, takeWhile_append_stop hword hstop, hcut.move.get] at hok
    simpa using (of_require_bind hok).1
  obtain ⟨after, rfl⟩ := List.head?_eq_some_iff.mp hspace
  obtain ⟨count, back, rfl, hback⟩ := exists_spaces after
  obtain ⟨d', i', hcutWord, hnext⟩ := cutWord_at hcut hplain hback
  obtain rfl := Except.ok.inj (hcutWord.symm.trans hok)
  exact ⟨word, count, back, rfl, hplain, hback, hnext⟩

theorem cutLine_at {text : Bytes} {b : UInt8} (hcut : CutAt d i front (text ++ b :: back))
    (htext : OneLine text) (hb : EndsLine b) :
    ∃ d' i', cutLine d i = .ok (d', i') ∧ CutAt d' i' (front ++ (text ++ [0])) back := by
  have hdelim : delim (text ++ b :: back) 0 0 = text.length := by
    refine delim_append (fun c hc ↦ ?_) (fun c hc ↦ ?_)
    · have := htext c hc
      unfold EndsLine at this
      tauto
    · obtain rfl := Option.some.inj hc
      unfold EndsLine at hb
      tauto
  refine ⟨d.set (i + text.length) 0, i + text.length + 1, ?_, ?_⟩
  · unfold cutLine
    dsimp only
    rw [hcut.drop, hdelim, putNul_at hcut.move]
    rfl
  · rw [← append_assoc]
    exact (hcut.move.set 0).next

theorem of_cutLine {result : Bytes × ℕ} (hcut : CutAt d i front rest)
    (hok : cutLine d i = .ok result) :
    ∃ text b back, rest = text ++ b :: back ∧ OneLine text ∧ EndsLine b ∧
      CutAt result.1 result.2 (front ++ (text ++ [0])) back := by
  obtain ⟨text, stopped, rfl, htext, hstop⟩ := exists_takeWhile_split
    (fun b : UInt8 ↦ !(b == 0 || b == 0 || b == 13 || b == 10)) rest
  have hline : OneLine text := by
    intro b hb
    have := htext b hb
    simp only [Bool.not_eq_true', Bool.or_eq_false_iff, beq_eq_false_iff_ne] at this
    unfold EndsLine
    tauto
  cases stopped with
  | nil =>
    have hout : ¬ i + text.length < d.length := by
      rw [hcut.append, append_nil, length_append, hcut.length]
      exact Nat.lt_irrefl _
    unfold cutLine at hok
    dsimp only at hok
    rw [hcut.drop, delim, takeWhile_append_stop htext hstop, putNul, if_neg hout] at hok
    exact absurd hok nofun
  | cons b back =>
    have hb : EndsLine b := by
      have hends := hstop b rfl
      simp only [Bool.not_eq_false', Bool.or_eq_true, beq_iff_eq] at hends
      unfold EndsLine
      tauto
    obtain ⟨d', i', hcutLine, hnext⟩ := cutLine_at hcut hline hb
    obtain rfl := Except.ok.inj (hcutLine.symm.trans hok)
    exact ⟨text, b, back, rfl, hline, hb, hnext⟩

end Cutting

/-! ### Header lines -/

/-- A header line from its name on: the name, the spaces before the colon, the blanks after it, the
value and the byte that ends the value, which the LF of the line follows. -/
structure FieldLine where
  name : Bytes
  spaces : ℕ
  blanks : Bytes
  value : Bytes
  stop : UInt8
  name_plain : ∀ b ∈ name, b ≠ 32 ∧ b ≠ 58 ∧ b ≠ 13 ∧ b ≠ 10
  blanks_blank : ∀ b ∈ blanks, b = 32 ∨ b = 9
  value_line : OneLine value
  value_start : ∀ b, value.head? = some b → b ≠ 32 ∧ b ≠ 9
  stop_ends : EndsLine stop

def FieldLine.text (line : FieldLine) : Bytes :=
  line.name ++ (List.replicate line.spaces 32 ++
    58 :: (line.blanks ++ (line.value ++ [line.stop, 10])))

/-- The spaces after a name, once the first of them has been overwritten. -/
def cutSpaces : ℕ → Bytes
  | 0 => []
  | count + 1 => 0 :: List.replicate count 32

/-- The bytes of a header line after the parser has cut it. -/
def FieldLine.cut (line : FieldLine) : Bytes :=
  line.name ++ (cutSpaces line.spaces ++ 0 :: (line.blanks ++ (line.value ++ [0, 10])))

/-- Where the name and the value of a header line that starts at `start` are. -/
def FieldLine.entry (line : FieldLine) (start : ℕ) : Hdrf :=
  ⟨start, start + line.name.length + line.spaces + 1 + line.blanks.length⟩

@[simp] theorem length_cutSpaces (count : ℕ) : (cutSpaces count).length = count := by
  cases count with
  | zero => rfl
  | succ count => simp [cutSpaces]

section Fields

variable {d front back : Bytes} {i : ℕ}

/-- A name is ended by a space, which is overwritten and skipped with those after it, or else by
the byte that stops it. -/
theorem parseName_at {name : Bytes} {spaces : ℕ}
    (hcut : CutAt d i front (name ++ (List.replicate spaces 32 ++ back)))
    (hname : ∀ b ∈ name, b ≠ 32 ∧ b ≠ 58 ∧ b ≠ 13 ∧ b ≠ 10) (hback : back.head? ≠ some 32)
    (hstop : spaces = 0 → ∃ b rest, back = b :: rest ∧ (b = 58 ∨ b = 13 ∨ b = 10)) :
    ∃ d', parseName d i = .ok (d', i + name.length + spaces) ∧
      CutAt d' (i + name.length + spaces) (front ++ (name ++ cutSpaces spaces)) back := by
  have hend := hcut.move
  unfold parseName
  dsimp only
  cases spaces with
  | zero =>
    obtain ⟨b, rest, rfl, hb⟩ := hstop rfl
    have hdelim : delim (name ++ b :: rest) 32 58 = name.length := by
      refine delim_append hname fun c hc ↦ ?_
      obtain rfl := Option.some.inj hc
      exact Or.inr hb
    rw [replicate_zero, nil_append] at hcut hend
    refine ⟨d, ?_, by rwa [cutSpaces, append_nil]⟩
    rw [hcut.drop, hdelim, decide_eq_true hend.lt, require_true, ok_bind, hend.get, if_neg hback]
    rfl
  | succ spaces =>
    have hdelim : delim (name ++ (List.replicate (spaces + 1) 32 ++ back)) 32 58 =
        name.length :=
      delim_append hname fun c hc ↦ Or.inl (Option.some.inj hc).symm
    rw [replicate_succ, cons_append] at hend
    have hspaces := (hend.set 0).next
    refine ⟨d.set (i + name.length) 0, ?_, ?_⟩
    · rw [hcut.drop, hdelim, decide_eq_true hend.lt, require_true, ok_bind, hend.get,
        List.head?_cons, if_pos rfl, putNul_at hend, ok_bind, skipSpaces_at hspaces hback,
        Nat.add_assoc _ 1, Nat.add_comm 1]
      rfl
    · have hcolon := hspaces.move
      rw [length_replicate, Nat.add_assoc _ 1, Nat.add_comm 1] at hcolon
      simpa only [cutSpaces, append_assoc, singleton_append] using hcolon

theorem parseValue_at {blanks value : Bytes} {stop : UInt8}
    (hcut : CutAt d i front (58 :: (blanks ++ (value ++ stop :: 10 :: back))))
    (hblanks : ∀ b ∈ blanks, b = 32 ∨ b = 9) (hvalue : OneLine value)
    (hstart : ∀ b, value.head? = some b → b ≠ 32 ∧ b ≠ 9) (hstop : EndsLine stop) :
    ∃ d' i', parseValue d i = .ok (d', i', i + 1 + blanks.length) ∧
      CutAt d' i' (front ++ 0 :: (blanks ++ (value ++ [0, 10]))) back := by
  have hscan : (blanks ++ (value ++ stop :: 10 :: back)).takeWhile
      (fun b : UInt8 ↦ b == 32 || b == 9) = blanks := by
    refine takeWhile_append_stop (fun b hb ↦ by simpa using hblanks b hb) fun b hb ↦ ?_
    have hne : b ≠ 32 ∧ b ≠ 9 := by
      cases value with
      | nil =>
        obtain rfl := Option.some.inj hb
        rcases hstop with rfl | rfl | rfl <;> decide
      | cons first rest => exact hstart b hb
    simpa using hne
  have hafter := (hcut.set 0).next
  obtain ⟨d', i', hline, hend⟩ := cutLine_at hafter.move hvalue hstop
  refine ⟨d', i' + 1, ?_, ?_⟩
  · unfold parseValue
    dsimp only
    rw [hcut.get, List.head?_cons, beq_self_eq_true, require_true, ok_bind, putNul_at hcut, ok_bind,
      hafter.drop, hscan, hline, ok_bind]
    dsimp only
    rw [hend.get]
    rfl
  · simpa only [append_assoc, cons_append, nil_append] using hend.next

/-- One header line is cut in place and its offsets are recorded. -/
theorem parseField_at {line : FieldLine} (hcut : CutAt d i front (line.text ++ back)) :
    ∃ d' i', parseField d i = .ok (d', i', line.entry i) ∧ CutAt d' i' (front ++ line.cut) back := by
  simp only [FieldLine.text, append_assoc, cons_append, nil_append] at hcut
  obtain ⟨d₁, hname, hcolon⟩ :=
    parseName_at hcut line.name_plain (by simp) fun _ ↦ ⟨58, _, rfl, Or.inl rfl⟩
  obtain ⟨d₂, i₂, hvalue, hend⟩ :=
    parseValue_at hcolon line.blanks_blank line.value_line line.value_start line.stop_ends
  refine ⟨d₂, i₂, ?_, by simpa only [FieldLine.cut, append_assoc] using hend⟩
  unfold parseField
  rw [hname, ok_bind]
  dsimp only
  rw [hvalue]
  rfl

theorem of_parseValue {result : Bytes × ℕ × ℕ} (hcut : CutAt d i front rest)
    (hok : parseValue d i = .ok result) :
    ∃ blanks value stop back, rest = 58 :: (blanks ++ (value ++ stop :: 10 :: back)) ∧
      (∀ b ∈ blanks, b = 32 ∨ b = 9) ∧ OneLine value ∧
        (∀ b, value.head? = some b → b ≠ 32 ∧ b ≠ 9) ∧ EndsLine stop := by
  unfold parseValue at hok
  dsimp only at hok
  -- The byte at the index has to be the colon.
  obtain ⟨hcolon, hok⟩ := of_require_bind hok
  rw [hcut.get, beq_iff_eq] at hcolon
  obtain ⟨after, rfl⟩ := List.head?_eq_some_iff.mp hcolon
  obtain ⟨blanks, text, rfl, hblanks, htext⟩ := exists_takeWhile_split
    (fun b : UInt8 ↦ b == 32 || b == 9) after
  have hafter := (hcut.set 0).next
  rw [putNul_at hcut, ok_bind, hafter.drop, takeWhile_append_stop hblanks htext] at hok
  obtain ⟨_, hline, hok⟩ := bind_eq_ok_iff.mp hok
  obtain ⟨value, stop, tail, rfl, hvalue, hstop, hend⟩ := of_cutLine hafter.move hline
  have hlf := (of_require_bind hok).1
  rw [hend.get, beq_iff_eq] at hlf
  obtain ⟨back, rfl⟩ := List.head?_eq_some_iff.mp hlf
  refine ⟨blanks, value, stop, back, rfl, fun b hb ↦ by simpa using hblanks b hb, hvalue, ?_, hstop⟩
  intro b hb
  have := htext b (by rw [List.head?_append, hb]; rfl)
  simpa using this

/-- When the parser takes a header line, the bytes are a header line. -/
theorem of_parseField {result : Bytes × ℕ × Hdrf} (hcut : CutAt d i front rest)
    (hok : parseField d i = .ok result) : ∃ back, ∃ line : FieldLine, rest = line.text ++ back := by
  obtain ⟨name, stopped, rfl, hname, hstop⟩ := exists_takeWhile_split
    (fun b : UInt8 ↦ !(b == 32 || b == 58 || b == 13 || b == 10)) rest
  have hplain : ∀ b ∈ name, b ≠ 32 ∧ b ≠ 58 ∧ b ≠ 13 ∧ b ≠ 10 := by
    intro b hb
    have := hname b hb
    simp only [Bool.not_eq_true', Bool.or_eq_false_iff, beq_eq_false_iff_ne] at this
    tauto
  obtain ⟨spaces, back, rfl, hback⟩ := exists_spaces stopped
  obtain ⟨⟨d', colon⟩, hcolon, hok⟩ := bind_eq_ok_iff.mp hok
  -- Without a space after the name there is a byte that stopped it, for the message goes on there.
  have hnext : spaces = 0 → ∃ b rest, back = b :: rest ∧ (b = 58 ∨ b = 13 ∨ b = 10) := by
    rintro rfl
    cases back with
    | nil =>
      have hdelim : delim (name ++ []) 32 58 = name.length := delim_append hplain nofun
      have hinside := of_decide_eq_true (of_require_bind hcolon).1
      rw [hcut.drop, replicate_zero, nil_append, hdelim, hcut.append, length_append,
        length_append, hcut.length] at hinside
      exact absurd hinside (Nat.lt_irrefl _)
    | cons b after =>
      have hends := hstop b rfl
      simp only [Bool.not_eq_false', Bool.or_eq_true, beq_iff_eq] at hends
      have hne : b ≠ 32 := fun h ↦ hback (h ▸ rfl)
      exact ⟨b, after, rfl, by tauto⟩
  obtain ⟨d₁, hparsed, hat⟩ := parseName_at hcut hplain hback hnext
  obtain ⟨rfl, rfl⟩ := Prod.mk.inj (Except.ok.inj (hparsed.symm.trans hcolon))
  obtain ⟨_, hvalue, -⟩ := bind_eq_ok_iff.mp hok
  obtain ⟨blanks, value, stop, tail, rfl, hblanks, hline, hvalueStart, hends⟩ :=
    of_parseValue hat hvalue
  refine ⟨tail, ⟨name, spaces, blanks, value, stop, hplain, hblanks, hline, hvalueStart,
    hends⟩, ?_⟩
  simp only [FieldLine.text, append_assoc, cons_append, nil_append]

end Fields

theorem require_ne_fieldOutside (condition : Bool) : require condition ≠ .error .fieldOutside := by
  cases condition <;> exact nofun

theorem putNul_ne_fieldOutside (d : Bytes) (i : ℕ) : putNul d i ≠ .error .fieldOutside := by
  unfold putNul
  split_ifs <;> exact nofun

theorem cutWord_ne_fieldOutside (d : Bytes) (i : ℕ) : cutWord d i ≠ .error .fieldOutside :=
  bind_ne_error (require_ne_fieldOutside _) fun _ ↦
    bind_ne_error (putNul_ne_fieldOutside _ _) fun _ ↦ nofun

theorem cutLine_ne_fieldOutside (d : Bytes) (i : ℕ) : cutLine d i ≠ .error .fieldOutside :=
  bind_ne_error (putNul_ne_fieldOutside _ _) fun _ ↦ nofun

theorem parseField_ne_fieldOutside (d : Bytes) (start : ℕ) :
    parseField d start ≠ .error .fieldOutside := by
  refine bind_ne_error (bind_ne_error (require_ne_fieldOutside _) fun _ ↦ ?_) fun _ ↦ ?_
  · split_ifs
    · exact bind_ne_error (putNul_ne_fieldOutside _ _) fun _ ↦ nofun
    · exact nofun
  · refine bind_ne_error ?_ fun _ ↦ nofun
    refine bind_ne_error (require_ne_fieldOutside _) fun _ ↦ ?_
    refine bind_ne_error (putNul_ne_fieldOutside _ _) fun _ ↦ ?_
    refine bind_ne_error (cutLine_ne_fieldOutside _ _) fun _ ↦ ?_
    exact bind_ne_error (require_ne_fieldOutside _) fun _ ↦ nofun

end WisCam.Message
