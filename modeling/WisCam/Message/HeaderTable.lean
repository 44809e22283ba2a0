import WisCam.Message.StartLine

/-!
# The header table

`parse_pmsg` stores every header line it meets in a table of `MAX_FIELDS` entries and never looks at
the number of entries in use. The stores stay inside the table exactly for the messages that do not
go on with a further header after `MAX_FIELDS` header lines (`TooManyHeaders`), and the count that
is returned is within the table whenever a message is returned at all.
-/

set_option autoImplicit false

namespace WisCam.Message

open Foundations List

/-! ### Header lines one after another -/

/-- A header line with the CR that the parser skips before it. -/
structure HeaderLine where
  cr : Bool
  field : FieldLine
  field_start : field.text.head? ≠ some 9 ∧ field.text.head? ≠ some 32

def HeaderLine.text (line : HeaderLine) : Bytes := crBytes line.cr ++ line.field.text

/-- The bytes of a header line and of the CR before it, after the parser has cut the line. -/
def HeaderLine.cut (line : HeaderLine) : Bytes := crBytes line.cr ++ line.field.cut

/-- The text goes on with a header: after an optional CR there is a byte that neither ends the
headers nor continues a line. -/
def BeginsHeader (text : Bytes) : Prop :=
  ∃ cr b rest, text = crBytes cr ++ b :: rest ∧ (cr = false → b ≠ 13) ∧ b ≠ 10 ∧ b ≠ 9 ∧ b ≠ 32

/-- The message has a first line, `MAX_FIELDS` header lines and the beginning of a further one. -/
def TooManyHeaders (d : Bytes) : Prop :=
  ∃ (start : StartLine) (lines : List HeaderLine) (rest : Bytes),
    d = start.text ++ (lines.flatMap HeaderLine.text ++ rest) ∧ lines.length = maxFields ∧
      BeginsHeader rest

/-- The table entries of header lines, the first of which starts at `i`. -/
def entriesFrom : ℕ → List HeaderLine → List Hdrf
  | _, [] => []
  | i, line :: lines =>
    line.field.entry (i + (crBytes line.cr).length) :: entriesFrom (i + line.text.length) lines

theorem FieldLine.exists_head (line : FieldLine) :
    ∃ b rest, line.text = b :: rest ∧ b ≠ 13 ∧ b ≠ 10 := by
  unfold FieldLine.text
  cases hname : line.name with
  | cons b rest =>
    have hb := line.name_plain b (hname ▸ mem_cons_self ..)
    exact ⟨b, _, rfl, hb.2.2⟩
  | nil =>
    cases line.spaces with
    | zero => exact ⟨58, _, rfl, by decide⟩
    | succ count => exact ⟨32, _, rfl, by decide⟩

theorem FieldLine.length_cut (line : FieldLine) : line.cut.length = line.text.length := by
  simp only [FieldLine.cut, FieldLine.text, length_append, length_cons,
    length_replicate, length_cutSpaces, length_nil]

theorem HeaderLine.length_cut (line : HeaderLine) : line.cut.length = line.text.length := by
  rw [HeaderLine.cut, HeaderLine.text, length_append, length_append, line.field.length_cut]

section Rounds

variable {d front rest back : Bytes} {i fuel : ℕ} {fields : List Hdrf}

/-- What one round of the loop does where a header begins. -/
theorem parseHeaders_begins {b : UInt8} {cr : Bool}
    (hcut : CutAt d i front (crBytes cr ++ b :: rest)) (hcr : cr = false → b ≠ 13) (hlf : b ≠ 10)
    (htab : b ≠ 9) (hspace : b ≠ 32) :
    parseHeaders (fuel + 1) d i fields =
      if maxFields ≤ fields.length then .error .fieldOutside
      else parseField d (i + (crBytes cr).length) >>= fun result ↦
        parseHeaders fuel result.1 result.2.1 (fields ++ [result.2.2]) := by
  have hskip := skipCr_at hcut fun h hb ↦ hcr h (Option.some.inj hb)
  have hplain : (b != 9 && b != 32) = true := by simp [htab, hspace]
  rw [parseHeaders]
  dsimp only
  rw [hskip, if_neg (Nat.ne_of_lt hcut.move.lt), byteAt_at hcut.move, ok_bind, if_neg hlf, hplain]
  rfl

/-- What one round of the loop does everywhere else: it ends the loop. -/
theorem parseHeaders_not_begins (hcut : CutAt d i front rest) (hrest : ¬ BeginsHeader rest) :
    (∃ ret, parseHeaders (fuel + 1) d i fields = .ok (d, ret, fields)) ∨
      parseHeaders (fuel + 1) d i fields = .error .malformed := by
  obtain ⟨cr, text, rfl, hcr⟩ := exists_crBytes rest
  have hat := hcut.move
  rw [parseHeaders]
  dsimp only
  rw [skipCr_at hcut hcr]
  cases text with
  | nil =>
    rw [if_pos (by rw [← hat.length, hat.append, append_nil])]
    exact Or.inl ⟨_, rfl⟩
  | cons b rest =>
    rw [if_neg (Nat.ne_of_lt hat.lt), byteAt_at hat, ok_bind]
    by_cases hlf : b = 10
    · rw [if_pos hlf]
      exact Or.inl ⟨_, rfl⟩
    · have hblank : ¬ (b ≠ 9 ∧ b ≠ 32) := fun hplain ↦
        hrest ⟨cr, b, rest, rfl, fun h hb ↦ hcr h (hb ▸ rfl), hlf, hplain⟩
      have hrefused : (b != 9 && b != 32) = false := by
        simpa using hblank
      rw [if_neg hlf, hrefused]
      exact Or.inr rfl

/-- A header line is stored in the next free entry, and the loop goes on after it. -/
theorem parseHeaders_line {line : HeaderLine} (hcut : CutAt d i front (line.text ++ back))
    (hroom : fields.length < maxFields) :
    ∃ d', CutAt d' (i + line.text.length) (front ++ line.cut) back ∧
      parseHeaders (fuel + 1) d i fields = parseHeaders fuel d' (i + line.text.length)
        (fields ++ [line.field.entry (i + (crBytes line.cr).length)]) := by
  obtain ⟨b, rest, htext, hcr, hlf⟩ := line.field.exists_head
  obtain ⟨htab, hspace⟩ := line.field_start
  rw [htext] at htab hspace
  have hbegin := hcut
  rw [HeaderLine.text, append_assoc] at hbegin
  obtain ⟨d', i', hfield, hnext⟩ := parseField_at hbegin.move
  have hi' : i' = i + line.text.length := by
    rw [← hnext.length, ← hcut.length, append_assoc, length_append]
    exact congrArg _ line.length_cut
  rw [htext, cons_append] at hbegin
  rw [parseHeaders_begins hbegin (fun _ ↦ hcr) hlf (fun h ↦ htab (h ▸ rfl))
    (fun h ↦ hspace (h ▸ rfl)), if_neg (Nat.not_le.mpr hroom), hfield, ok_bind]
  rw [append_assoc, hi'] at hnext
  exact ⟨d', hnext, by rw [hi']⟩

/-- Header lines beyond the table's size end in a store outside it. -/
theorem parseHeaders_overflow {lines : List HeaderLine}
    (hcut : CutAt d i front (lines.flatMap HeaderLine.text ++ rest))
    (hcount : fields.length + lines.length = maxFields) (hrest : BeginsHeader rest)
    (hfuel : lines.length < fuel) : parseHeaders fuel d i fields = .error .fieldOutside := by
  induction lines generalizing d front i fuel fields with
  | nil =>
    obtain ⟨cr, b, after, rfl, hcr, hlf, htab, hspace⟩ := hrest
    obtain ⟨fuel, rfl⟩ := Nat.exists_eq_add_one.mpr hfuel
    have hfull : maxFields ≤ fields.length := Nat.le_of_eq hcount.symm
    rw [parseHeaders_begins hcut hcr hlf htab hspace, if_pos hfull]
  | cons line lines ih =>
    rw [length_cons] at hcount hfuel
    obtain ⟨fuel, rfl⟩ := Nat.exists_eq_add_one.mpr (Nat.zero_lt_of_lt hfuel)
    rw [flatMap_cons, append_assoc] at hcut
    have hroom : fields.length < maxFields := by omega
    obtain ⟨d', hnext, heq⟩ := @parseHeaders_line _ _ _ _ fuel fields line hcut hroom
    rw [heq]
    refine ih hnext ?_ (Nat.lt_of_succ_lt_succ hfuel)
    rw [length_append, length_singleton]
    omega

/-- Where a header begins there is a header line, or the loop stops. -/
theorem exists_line_of_begins (hcut : CutAt d i front rest) (hroom : fields.length < maxFields)
    (hbegins : BeginsHeader rest) :
    (∃ (line : HeaderLine) (back : Bytes), rest = line.text ++ back) ∨
      ∃ stop, stop ≠ .fieldOutside ∧ ∀ fuel, parseHeaders (fuel + 1) d i fields = .error stop := by
  obtain ⟨cr, b, after, rfl, hcr, hlf, htab, hspace⟩ := hbegins
  cases hfield : parseField d (i + (crBytes cr).length) with
  | error stop =>
    refine Or.inr ⟨stop, fun h ↦ parseField_ne_fieldOutside _ _ (h ▸ hfield), fun fuel ↦ ?_⟩
    rw [parseHeaders_begins hcut hcr hlf htab hspace, if_neg (Nat.not_le.mpr hroom), hfield]
    rfl
  | ok result =>
    obtain ⟨back, field, hafter⟩ := of_parseField hcut.move hfield
    have hfieldHead : field.text.head? = some b := by
      obtain ⟨b', rest', htext, -⟩ := field.exists_head
      rw [htext, cons_append] at hafter
      rw [htext, (List.cons.inj hafter).1]
      rfl
    have hstart : field.text.head? ≠ some 9 ∧ field.text.head? ≠ some 32 := by
      rw [hfieldHead]
      exact ⟨fun h ↦ htab (Option.some.inj h), fun h ↦ hspace (Option.some.inj h)⟩
    refine Or.inl ⟨⟨cr, field, hstart⟩, back, ?_⟩
    rw [hafter, HeaderLine.text, append_assoc]

/-- How the loop ends, after it has taken header lines that fit the table: it returns with these
lines cut and their entries in the table, it stores a further header outside the table, or it
stops. -/
theorem parseHeaders_end (hcut : CutAt d i front rest) (hcount : fields.length ≤ maxFields) :
    ∃ (lines : List HeaderLine) (back : Bytes), rest = lines.flatMap HeaderLine.text ++ back ∧
      fields.length + lines.length ≤ maxFields ∧
      ((∃ ret, parseHeaders fuel d i fields = .ok
          (front ++ (lines.flatMap HeaderLine.cut ++ back), ret, fields ++ entriesFrom i lines)) ∨
        (parseHeaders fuel d i fields = .error .fieldOutside ∧
          fields.length + lines.length = maxFields ∧ BeginsHeader back) ∨
        ∃ stop, stop ≠ .fieldOutside ∧ parseHeaders fuel d i fields = .error stop) := by
  induction fuel generalizing d front rest i fields with
  | zero => exact ⟨[], rest, rfl, hcount, .inr (.inr ⟨.endless, nofun, rfl⟩)⟩
  | succ fuel ih =>
    by_cases hbegins : BeginsHeader rest
    · by_cases hfull : maxFields ≤ fields.length
      · refine ⟨[], rest, rfl, hcount, .inr (.inl ⟨?_, Nat.le_antisymm hcount hfull, hbegins⟩)⟩
        obtain ⟨cr, b, after, rfl, hcr, hlf, htab, hspace⟩ := hbegins
        rw [parseHeaders_begins hcut hcr hlf htab hspace, if_pos hfull]
      have hroom := Nat.not_le.mp hfull
      rcases exists_line_of_begins hcut hroom hbegins with ⟨line, back, rfl⟩ | ⟨stop, hne, hstop⟩
      · -- The line is stored, and the loop goes on after it.
        obtain ⟨d', hnext, heq⟩ := @parseHeaders_line _ _ _ _ fuel fields line hcut hroom
        have hlength : (fields ++ [line.field.entry (i + (crBytes line.cr).length)]).length =
            fields.length + 1 := length_append
        obtain ⟨lines, back, rfl, htotal, hend⟩ := ih hnext (hlength.trans_le hroom)
        rw [hlength, Nat.add_assoc, Nat.add_comm 1] at htotal hend
        refine ⟨line :: lines, back, ?_, htotal, ?_⟩
        · rw [flatMap_cons, append_assoc]
        · rw [heq, flatMap_cons, entriesFrom]
          simpa only [append_assoc, singleton_append, length_cons] using hend
      · exact ⟨[], rest, rfl, hcount, .inr (.inr ⟨stop, hne, hstop fuel⟩)⟩
    · refine ⟨[], rest, rfl, hcount, ?_⟩
      rcases @parseHeaders_not_begins _ _ _ _ fuel fields hcut hbegins with ⟨ret, hok⟩ | hmalformed
      · refine .inl ⟨ret, ?_⟩
        rw [hok, hcut.append, entriesFrom, append_nil]
        rfl
      · exact .inr (.inr ⟨.malformed, nofun, hmalformed⟩)

end Rounds

theorem length_entriesFrom (lines : List HeaderLine) (i : ℕ) :
    (entriesFrom i lines).length = lines.length := by
  induction lines generalizing i with
  | nil => rfl
  | cons line lines ih => rw [entriesFrom, length_cons, length_cons, ih]

/-! ### Whole messages -/

theorem parseStartLine_ne_fieldOutside (d : Bytes) : parseStartLine d ≠ .error .fieldOutside := by
  have hbyte (d : Bytes) (i : ℕ) : byteAt d i ≠ .error .fieldOutside := by
    unfold byteAt
    split <;> exact nofun
  have hend (d : Bytes) (i : ℕ) : parseLineEnd d i ≠ .error .fieldOutside :=
    bind_ne_error (require_ne_fieldOutside _) fun _ ↦ nofun
  refine bind_ne_error (require_ne_fieldOutside _) fun _ ↦ ?_
  refine bind_ne_error (require_ne_fieldOutside _) fun _ ↦ ?_
  dsimp only
  split_ifs
  · refine bind_ne_error ?_ fun _ ↦ bind_ne_error (hend _ _) fun _ ↦ nofun
    refine bind_ne_error (hbyte _ _) fun _ ↦ ?_
    refine bind_ne_error (cutWord_ne_fieldOutside _ _) fun result ↦ ?_
    dsimp only
    split
    · refine bind_ne_error (require_ne_fieldOutside _) fun _ ↦ ?_
      exact bind_ne_error (cutLine_ne_fieldOutside _ _) fun _ ↦ nofun
    · exact nofun
  · refine bind_ne_error ?_ fun _ ↦ bind_ne_error (hend _ _) fun _ ↦ nofun
    refine bind_ne_error (cutWord_ne_fieldOutside _ _) fun _ ↦ ?_
    refine bind_ne_error (cutWord_ne_fieldOutside _ _) fun _ ↦ ?_
    exact bind_ne_error (cutLine_ne_fieldOutside _ _) fun _ ↦ nofun

theorem StartLine.length_cut (line : StartLine) : line.cut.length = line.text.length := by
  cases line with
  | request line =>
    simp only [StartLine.cut, StartLine.text, RequestLine.bytes, LastPart.cut, LastPart.text,
      length_append, length_cons]
  | response line =>
    simp only [StartLine.cut, StartLine.text, ResponseLine.bytes, LastPart.cut, LastPart.text,
      length_append, length_cons]

theorem length_le_length_flatMap (lines : List HeaderLine) :
    lines.length ≤ (lines.flatMap HeaderLine.text).length := by
  induction lines with
  | nil => exact Nat.le_refl _
  | cons line lines ih =>
    obtain ⟨b, rest, htext, -⟩ := line.field.exists_head
    have hpos : 0 < line.text.length := by
      rw [HeaderLine.text, length_append, htext, length_cons]
      omega
    rw [flatMap_cons, length_append, length_cons]
    omega

/-- A store outside the header table happens on exactly the messages with too many headers. -/
theorem parsePmsg_eq_fieldOutside_iff (d : Bytes) :
    parsePmsg d = .error .fieldOutside ↔ TooManyHeaders d := by
  constructor
  · intro hparse
    rcases bind_eq_error_iff.mp hparse with herror | ⟨result, hstart, hparse⟩
    · exact absurd herror (parseStartLine_ne_fieldOutside d)
    obtain ⟨line, back, rfl⟩ := exists_of_parseStartLine hstart
    rw [parseStartLine_text] at hstart
    obtain rfl := Except.ok.inj hstart
    rcases bind_eq_error_iff.mp hparse with herror | ⟨_, -, hparse⟩
    · obtain ⟨lines, rest, rfl, -, ⟨ret, hok⟩ | ⟨-, hcount, hrest⟩ | ⟨stop, hne, hstop⟩⟩ :=
        @parseHeaders_end _ _ back _ ((line.cut ++ back).length + 1) [] ⟨rfl, line.length_cut⟩
          (Nat.zero_le _)
      · exact absurd (hok.symm.trans herror) nofun
      · rw [length_nil, Nat.zero_add] at hcount
        exact ⟨line, lines, rest, rfl, hcount, hrest⟩
      · exact absurd (Except.error.inj (hstop.symm.trans herror)) hne
    · exact absurd hparse nofun
  · rintro ⟨line, lines, rest, rfl, hcount, hrest⟩
    have hfuel : lines.length <
        (line.cut ++ (lines.flatMap HeaderLine.text ++ rest)).length + 1 := by
      have := length_le_length_flatMap lines
      simp only [length_append]
      omega
    have hroom : ([] : List Hdrf).length + lines.length = maxFields := by
      rw [length_nil, Nat.zero_add]
      exact hcount
    have hoverflow := parseHeaders_overflow ⟨rfl, line.length_cut⟩ hroom hrest hfuel
    unfold parsePmsg
    rw [parseStartLine_text, ok_bind]
    dsimp only
    rw [hoverflow]
    rfl

/-- What the parser returns: a first line and header lines have been cut, and the entries of the
header lines are in the table. -/
theorem of_parsePmsg {d : Bytes} {m : Pmsg} {ret : ℕ} (hparse : parsePmsg d = .ok (m, ret)) :
    ∃ (start : StartLine) (lines : List HeaderLine) (back : Bytes),
      m.msg = start.cut ++ (lines.flatMap HeaderLine.cut ++ back) ∧
      m.fields = entriesFrom start.text.length lines ∧ lines.length ≤ maxFields := by
  obtain ⟨result, hstart, hparse⟩ := bind_eq_ok_iff.mp hparse
  obtain ⟨result', hheaders, hparse⟩ := bind_eq_ok_iff.mp hparse
  obtain ⟨rfl, -⟩ := Prod.mk.inj (Except.ok.inj hparse)
  obtain ⟨start, back, rfl⟩ := exists_of_parseStartLine hstart
  rw [parseStartLine_text] at hstart
  obtain rfl := Except.ok.inj hstart
  obtain ⟨lines, tail, rfl, hcount, ⟨ret, hok⟩ | ⟨hstop, -⟩ | ⟨stop, -, hstop⟩⟩ :=
    @parseHeaders_end _ _ back _ ((start.cut ++ back).length + 1) [] ⟨rfl, start.length_cut⟩
      (Nat.zero_le _)
  · obtain rfl := Except.ok.inj (hok.symm.trans hheaders)
    rw [length_nil, Nat.zero_add] at hcount
    exact ⟨start, lines, tail, rfl, rfl, hcount⟩
  · exact absurd (hstop.symm.trans hheaders) nofun
  · exact absurd (hstop.symm.trans hheaders) nofun

/-- Every store into the header table has an index below `MAX_FIELDS`, and the count that is
returned is at most `MAX_FIELDS`, exactly when the message does not go on with a further header
after `MAX_FIELDS` header lines. -/
theorem headerTable_bounded_iff (d : Bytes) :
    (parsePmsg d ≠ .error .fieldOutside ∧
        ∀ m ret, parsePmsg d = .ok (m, ret) → m.fields.length ≤ maxFields) ↔
      ¬ TooManyHeaders d := by
  rw [← parsePmsg_eq_fieldOutside_iff]
  refine ⟨And.left, fun hinside ↦ ⟨hinside, fun m ret hparse ↦ ?_⟩⟩
  obtain ⟨start, lines, back, -, hfields, hcount⟩ := of_parsePmsg hparse
  rw [hfields, length_entriesFrom]
  exact hcount

/-- A request of 33 empty headers fits the request buffer and is stored outside the table. -/
theorem headerTable_overflows :
    ∃ d : Bytes, d.length ≤ 4094 ∧ (strstr (ascii "\r\n\r\n") d).isSome ∧
      parsePmsg d = .error .fieldOutside :=
  ⟨ascii "OPTIONS * RTSP/1.0\r\n" ++ (List.replicate 33 (ascii ":\r\n")).flatten ++ ascii "\r\n",
    by decide +kernel, by decide +kernel, by decide +kernel⟩

end WisCam.Message
