import WisCam.Message.HeaderTable

/-!
# Reading a written message

`parse_pmsg` overwrites delimiters while it scans, so the strings of a message are read from a
buffer that has changed since the line was taken. A line that has been cut (`FieldLine.cut`,
`StartLine.cut`) has its name and its value in place, each with a NUL after it, and nothing that
comes later touches it: `headers_entriesFrom` reads the strings of all header lines back from the
buffer the loop ends with. `parsePmsg_written` evaluates the parser on a first line, at most
`MAX_FIELDS` header lines, a blank line and any bytes after it.
-/

set_option autoImplicit false

namespace WisCam.Message

open Foundations List

/-! ### The strings of a message -/

/-- The names and the values in the header table. -/
def Pmsg.headers (m : Pmsg) : List (Bytes × Bytes) :=
  m.fields.map fun field ↦ (m.text field.name, m.text field.value)

theorem getHeader_eq (m : Pmsg) (name : Bytes) :
    getHeader m name =
      (m.headers.find? fun header ↦ sameNoCase header.1 name).map Prod.snd := by
  rw [getHeader, Pmsg.headers, List.find?_map, Option.map_map]
  rfl

/-- A string that stands with a NUL after it is read back up to its own first NUL. -/
theorem cstr_drop_nul {d front text back : Bytes} {i : ℕ}
    (hcut : CutAt d i front (text ++ 0 :: back)) : cstr (d.drop i) = cstr text := by
  rw [hcut.drop, cstr, cstr]
  clear hcut
  induction text with
  | nil => rfl
  | cons b text ih =>
    rw [cons_append, takeWhile_cons, takeWhile_cons, ih]

theorem cstr_drop_cut {d front text back : Bytes} {i : ℕ}
    (hcut : CutAt d i front (text ++ 0 :: back)) (htext : (0 : UInt8) ∉ text) :
    cstr (d.drop i) = text := by
  rw [cstr_drop_nul hcut, cstr_eq_self htext]

theorem OneLine.zero_notMem {text : Bytes} (htext : OneLine text) : (0 : UInt8) ∉ text :=
  fun hzero ↦ htext 0 hzero (Or.inl rfl)

theorem OneWord.oneLine {word : Bytes} (hword : OneWord word) : OneLine word :=
  fun b hb ↦ (hword b hb).2

/-! ### Header lines -/

theorem length_flatMap_cut (lines : List HeaderLine) :
    (lines.flatMap HeaderLine.cut).length = (lines.flatMap HeaderLine.text).length := by
  induction lines with
  | nil => rfl
  | cons line lines ih =>
    rw [flatMap_cons, flatMap_cons, length_append, length_append, ih, line.length_cut]

/-- The loop takes header lines one by one, as long as the table has room for them. -/
theorem parseHeaders_lines {lines : List HeaderLine} {d front back : Bytes} {i fuel : ℕ}
    {fields : List Hdrf} (hcut : CutAt d i front (lines.flatMap HeaderLine.text ++ back))
    (hroom : fields.length + lines.length ≤ maxFields) :
    parseHeaders (fuel + lines.length) d i fields =
      parseHeaders fuel (front ++ (lines.flatMap HeaderLine.cut ++ back))
        (i + (lines.flatMap HeaderLine.text).length) (fields ++ entriesFrom i lines) := by
  induction lines generalizing d front i fields with
  | nil =>
    rw [entriesFrom, append_nil, hcut.append]
    rfl
  | cons line lines ih =>
    rw [length_cons] at hroom
    rw [flatMap_cons, append_assoc] at hcut
    have hfree : fields.length < maxFields := by omega
    obtain ⟨d', hnext, heq⟩ :=
      @parseHeaders_line _ _ _ _ (fuel + lines.length) fields line hcut hfree
    rw [length_cons, ← Nat.add_assoc, heq, ih hnext]
    · rw [entriesFrom, flatMap_cons, flatMap_cons, length_append, Nat.add_assoc]
      simp only [append_assoc, singleton_append]
    · rw [length_append, length_singleton]
      omega

/-- The blank line ends the loop. -/
theorem parseHeaders_blank {d front back : Bytes} {i fuel : ℕ} {fields : List Hdrf}
    (hcut : CutAt d i front (13 :: 10 :: back)) :
    parseHeaders (fuel + 1) d i fields = .ok (d, i + 2, fields) := by
  have hskip : skipCr d i = i + 1 := @skipCr_at _ _ _ _ true hcut nofun
  rw [parseHeaders]
  dsimp only
  rw [hskip, if_neg (Nat.ne_of_lt hcut.next.lt), byteAt_at hcut.next, ok_bind, if_pos rfl]
  rfl

theorem FieldLine.cut_eq (line : FieldLine) : ∃ rest, line.cut = line.name ++ 0 :: rest := by
  unfold FieldLine.cut
  cases line.spaces with
  | zero => exact ⟨_, rfl⟩
  | succ count => exact ⟨_, rfl⟩

section Strings

variable {d front back : Bytes} {i : ℕ}

/-- A header line that has been cut has its name and its value where its entry says. -/
theorem FieldLine.text_entry {line : FieldLine} (hcut : CutAt d i front (line.cut ++ back)) :
    cstr (d.drop (line.entry i).name) = cstr line.name ∧
      cstr (d.drop (line.entry i).value) = line.value := by
  constructor
  · obtain ⟨rest, hline⟩ := line.cut_eq
    rw [hline, append_assoc, cons_append] at hcut
    exact cstr_drop_nul hcut
  · simp only [FieldLine.cut, append_assoc, cons_append, nil_append] at hcut
    have hvalue := hcut.move.move.next.move
    rw [length_cutSpaces] at hvalue
    exact cstr_drop_cut hvalue line.value_line.zero_notMem

/-- The strings of all header lines, read from the buffer once they have all been cut. -/
theorem headers_entriesFrom {lines : List HeaderLine}
    (hcut : CutAt d i front (lines.flatMap HeaderLine.cut ++ back)) :
    ((entriesFrom i lines).map fun field ↦ (cstr (d.drop field.name), cstr (d.drop field.value))) =
      lines.map fun line ↦ (cstr line.field.name, line.field.value) := by
  induction lines generalizing front i with
  | nil => rfl
  | cons line lines ih =>
    rw [flatMap_cons, append_assoc] at hcut
    have hrest := hcut.move
    rw [line.length_cut] at hrest
    rw [HeaderLine.cut, append_assoc] at hcut
    obtain ⟨hname, hvalue⟩ := FieldLine.text_entry hcut.move
    rw [entriesFrom, map_cons, map_cons, ih hrest, hname, hvalue]

end Strings

/-! ### First lines -/

/-- A request line that has been cut has its words where the status line says. -/
theorem RequestLine.text_cut (line : RequestLine) (back : Bytes) :
    cstr (line.bytes 0 line.proto.cut ++ back) = line.method ∧
      cstr ((line.bytes 0 line.proto.cut ++ back).drop (line.method.length + 1 + line.gap)) =
        line.uri ∧
      cstr ((line.bytes 0 line.proto.cut ++ back).drop (StartLine.request line).protoId) =
        line.proto.word := by
  have hmethod : CutAt (line.bytes 0 line.proto.cut ++ back) 0 [] (line.method ++ 0 ::
      (List.replicate line.gap 32 ++ (line.uri ++ 0 :: (List.replicate line.gap' 32 ++
        (line.proto.word ++ 0 :: (line.proto.filler ++ back)))))) :=
    ⟨by simp only [RequestLine.bytes, LastPart.cut, append_assoc, cons_append,
      nil_append], rfl⟩
  have huri := hmethod.move.next.move
  have hproto := huri.move.next.move
  rw [Nat.zero_add, length_replicate] at huri hproto
  rw [length_replicate] at hproto
  exact ⟨cstr_drop_cut hmethod line.method_word.oneLine.zero_notMem,
    cstr_drop_cut huri line.uri_word.oneLine.zero_notMem,
    cstr_drop_cut hproto line.proto.word_line.zero_notMem⟩

/-- The same for a response line. -/
theorem ResponseLine.text_cut (line : ResponseLine) (back : Bytes) :
    cstr (line.bytes 0 line.reason.cut ++ back) = line.proto ∧
      cstr ((line.bytes 0 line.reason.cut ++ back).drop
        (line.proto.length + 1 + line.gap + 4 + line.gap')) = line.reason.word := by
  have hproto : CutAt (line.bytes 0 line.reason.cut ++ back) 0 [] (line.proto ++ 0 ::
      (List.replicate line.gap 32 ++ line.digits.1 :: line.digits.2.1 :: line.digits.2.2 :: 32 ::
        (List.replicate line.gap' 32 ++ (line.reason.word ++ 0 ::
          (line.reason.filler ++ back))))) :=
    ⟨by simp only [ResponseLine.bytes, LastPart.cut, append_assoc, cons_append,
      nil_append], rfl⟩
  have hreason := hproto.move.next.move.next.next.next.next.move
  rw [Nat.zero_add, length_replicate, length_replicate] at hreason
  exact ⟨cstr_drop_cut hproto line.proto_word.oneLine.zero_notMem,
    cstr_drop_cut hreason line.reason.word_line.zero_notMem⟩

/-! ### Whole messages -/

/-- The message that the parser makes of a first line, header lines, a blank line and a body. -/
def takenApart (start : StartLine) (lines : List HeaderLine) (body : Bytes) : Pmsg where
  msg := start.cut ++ (lines.flatMap HeaderLine.cut ++ 13 :: 10 :: body)
  maxLen := (start.text ++ (lines.flatMap HeaderLine.text ++ 13 :: 10 :: body)).length
  fields := entriesFrom start.text.length lines
  protoId := some start.protoId
  sl := start.sl

/-- The parser returns the number of bytes before the body. -/
theorem parsePmsg_takenApart (start : StartLine) {lines : List HeaderLine} (body : Bytes)
    (hcount : lines.length ≤ maxFields) :
    parsePmsg (start.text ++ (lines.flatMap HeaderLine.text ++ 13 :: 10 :: body)) =
      .ok (takenApart start lines body,
        (start.text ++ (lines.flatMap HeaderLine.text ++ [13, 10])).length) := by
  have hfuel := length_le_length_flatMap lines
  obtain ⟨fuel, hfuel⟩ : ∃ fuel,
      (start.cut ++ (lines.flatMap HeaderLine.text ++ 13 :: 10 :: body)).length + 1 =
        fuel + 1 + lines.length := by
    refine ⟨(start.cut ++ (lines.flatMap HeaderLine.text ++ 13 :: 10 :: body)).length -
      lines.length, ?_⟩
    simp only [length_append]
    omega
  have hend : CutAt (start.cut ++ (lines.flatMap HeaderLine.cut ++ 13 :: 10 :: body))
      (start.text.length + (lines.flatMap HeaderLine.text).length)
      (start.cut ++ lines.flatMap HeaderLine.cut) (13 :: 10 :: body) :=
    ⟨(append_assoc ..).symm, by
      rw [length_append, start.length_cut, length_flatMap_cut]⟩
  have hbuffer : (start.cut ++ (lines.flatMap HeaderLine.cut ++ 13 :: 10 :: body)).length =
      (start.text ++ (lines.flatMap HeaderLine.text ++ 13 :: 10 :: body)).length := by
    simp only [length_append, start.length_cut, length_flatMap_cut]
  have hret : start.text.length + (lines.flatMap HeaderLine.text).length + 2 =
      (start.text ++ (lines.flatMap HeaderLine.text ++ [13, 10])).length := by
    simp only [length_append, length_cons, length_nil, Nat.add_assoc]
  unfold parsePmsg
  rw [parseStartLine_text, ok_bind]
  dsimp only
  rw [hfuel, parseHeaders_lines ⟨rfl, start.length_cut⟩ (by simpa using hcount),
    parseHeaders_blank hend, ok_bind, nil_append, hbuffer, hret]
  rfl

theorem headers_takenApart (start : StartLine) {lines : List HeaderLine} (body : Bytes)
    (hnames : ∀ line ∈ lines, (0 : UInt8) ∉ line.field.name) :
    (takenApart start lines body).headers =
      lines.map fun line ↦ (line.field.name, line.field.value) := by
  refine (headers_entriesFrom ⟨rfl, start.length_cut⟩).trans ?_
  refine map_congr_left fun line hline ↦ ?_
  rw [cstr_eq_self (hnames line hline)]

/-- The values of the headers of a message that was parsed are on one line. -/
theorem oneLine_of_parsePmsg {d : Bytes} {m : Pmsg} {ret : ℕ} (hparse : parsePmsg d = .ok (m, ret))
    {header : Bytes × Bytes} (hheader : header ∈ m.headers) : OneLine header.2 := by
  obtain ⟨start, lines, back, hmsg, hfields, -⟩ := of_parsePmsg hparse
  have hread : header ∈ lines.map fun line ↦ (cstr line.field.name, line.field.value) := by
    rw [← headers_entriesFrom ⟨hmsg, start.length_cut⟩, ← hfields]
    exact hheader
  obtain ⟨line, -, rfl⟩ := mem_map.mp hread
  exact line.field.value_line

/-- A header as it may stand in a message. -/
structure Header where
  name : Bytes
  value : Bytes
  name_plain : ∀ b ∈ name, b ≠ 32 ∧ b ≠ 58 ∧ ¬ EndsLine b
  name_start : name.head? ≠ some 9
  value_line : OneLine value
  value_start : ∀ b, value.head? = some b → b ≠ 32 ∧ b ≠ 9

def Header.pair (header : Header) : Bytes × Bytes := (header.name, header.value)

/-- A header as it is written on a line, with spaces before the colon and blanks after it. -/
structure WrittenHeader extends Header where
  spaces : ℕ
  blanks : Bytes
  blanks_blank : ∀ b ∈ blanks, b = 32 ∨ b = 9

def WrittenHeader.text (header : WrittenHeader) : Bytes :=
  header.name ++ List.replicate header.spaces 32 ++ ascii ":" ++ header.blanks ++ header.value ++
    ascii "\r\n"

/-- The lines of headers, as the parser meets them: spaces in front of a colon have to come after
a name, since a line that starts with one continues the line before. -/
theorem exists_headerLines {headers : List WrittenHeader}
    (hnames : ∀ header ∈ headers, header.spaces ≠ 0 → header.name ≠ []) :
    ∃ lines : List HeaderLine,
      lines.flatMap HeaderLine.text = headers.flatMap WrittenHeader.text ∧
      lines.length = headers.length ∧
      (lines.map fun line ↦ (line.field.name, line.field.value)) =
        headers.map (fun header ↦ header.pair) ∧
      ∀ line ∈ lines, (0 : UInt8) ∉ line.field.name := by
  induction headers with
  | nil => exact ⟨[], rfl, rfl, rfl, nofun⟩
  | cons header headers ih =>
    obtain ⟨lines, htext, hlength, hpairs, hnul⟩ :=
      ih fun header hheader ↦ hnames header (mem_cons_of_mem _ hheader)
    let field : FieldLine :=
      { name := header.name
        spaces := header.spaces
        blanks := header.blanks
        value := header.value
        stop := 13
        name_plain := fun b hb ↦
          have hplain := header.name_plain b hb
          ⟨hplain.1, hplain.2.1, fun hcr ↦ hplain.2.2 (Or.inr (Or.inl hcr)),
            fun hlf ↦ hplain.2.2 (Or.inr (Or.inr hlf))⟩
        blanks_blank := header.blanks_blank
        value_line := header.value_line
        value_start := header.value_start
        stop_ends := Or.inr (Or.inl rfl) }
    have hstart : field.text.head? ≠ some 9 ∧ field.text.head? ≠ some 32 := by
      have hspaces := hnames header mem_cons_self
      change (header.name ++ (List.replicate header.spaces 32 ++ 58 :: _)).head? ≠ _ ∧
        (header.name ++ (List.replicate header.spaces 32 ++ 58 :: _)).head? ≠ _
      cases hname : header.name with
      | nil =>
        have hzero : header.spaces = 0 := by
          by_contra hne
          exact hspaces hne hname
        rw [hzero]
        exact ⟨by simp, by simp⟩
      | cons b rest =>
        have htab := header.name_start
        have hplain := header.name_plain b (hname ▸ mem_cons_self)
        rw [hname] at htab
        exact ⟨htab, fun hspace ↦ hplain.1 (Option.some.inj hspace)⟩
    have hline : HeaderLine.text ⟨false, field, hstart⟩ = header.text := by
      simp only [HeaderLine.text, crBytes, Bool.false_eq_true, if_false, FieldLine.text, field,
        WrittenHeader.text, nil_append, append_assoc]
      rfl
    have hfieldNul : (0 : UInt8) ∉ field.name :=
      fun hzero ↦ (header.name_plain 0 hzero).2.2 (Or.inl rfl)
    refine ⟨⟨false, field, hstart⟩ :: lines, ?_, ?_, ?_, forall_mem_cons.mpr ⟨hfieldNul, hnul⟩⟩
    · rw [flatMap_cons, flatMap_cons, hline, htext]
    · rw [length_cons, length_cons, hlength]
    · rw [map_cons, map_cons, hpairs]
      rfl

/-- A first line with written headers after it. -/
theorem parsePmsg_written (start : StartLine) {headers : List WrittenHeader} (body : Bytes)
    (hcount : headers.length ≤ maxFields)
    (hnames : ∀ header ∈ headers, header.spaces ≠ 0 → header.name ≠ []) :
    ∃ m rest,
      parsePmsg (start.text ++ headers.flatMap WrittenHeader.text ++ ascii "\r\n" ++ body) =
        .ok (m, (start.text ++ headers.flatMap WrittenHeader.text ++ ascii "\r\n").length) ∧
      m.msg = start.cut ++ rest ∧ m.protoId = some start.protoId ∧ m.sl = start.sl ∧
      m.headers = headers.map fun header ↦ header.pair := by
  obtain ⟨lines, hlines, hlength, hpairs, hnul⟩ := exists_headerLines hnames
  have hparse := parsePmsg_takenApart start body (hlength.trans_le hcount)
  refine ⟨takenApart start lines body, _, ?_, rfl, rfl, rfl, ?_⟩
  · simp only [← hlines, append_assoc]
    exact hparse
  · rw [headers_takenApart start body hnul, hpairs]

/-- The message is a request with these words and headers. -/
def Pmsg.IsRequest (m : Pmsg) (method uri proto : Bytes) (headers : List (Bytes × Bytes)) : Prop :=
  m.protoId.map m.text = some proto ∧
    (∃ methodAt uriAt, m.sl = .req methodAt uriAt ∧ m.text methodAt = method ∧
      m.text uriAt = uri) ∧
    m.headers = headers

/-- The message is a response with this code and these strings and headers. -/
def Pmsg.IsResponse (m : Pmsg) (proto : Bytes) (code : ℕ) (reason : Bytes)
    (headers : List (Bytes × Bytes)) : Prop :=
  m.protoId.map m.text = some proto ∧
    (∃ reasonAt, m.sl = .stat code (some reasonAt) ∧ m.text reasonAt = reason) ∧
    m.headers = headers

/-- A request as it is written. -/
structure WrittenRequest where
  method : Bytes
  gap : ℕ
  uri : Bytes
  gap' : ℕ
  proto : Bytes
  headers : List WrittenHeader
  method_ne : method ≠ []
  method_word : OneWord method
  method_slash : 47 ∉ method
  uri_ne : uri ≠ []
  uri_word : OneWord uri
  gap_pos : 0 < gap
  gap_pos' : 0 < gap'
  proto_line : OneLine proto
  proto_start : proto.head? ≠ some 32

def WrittenRequest.text (request : WrittenRequest) : Bytes :=
  request.method ++ List.replicate request.gap 32 ++ request.uri ++
    List.replicate request.gap' 32 ++ request.proto ++ ascii "\r\n" ++
    request.headers.flatMap WrittenHeader.text ++ ascii "\r\n"

/-- A response as it is printed. -/
structure WrittenResponse where
  proto : Bytes
  code : ℕ
  reason : Bytes
  headers : List Header
  proto_slash : 47 ∈ proto
  proto_space : 32 ∉ proto
  code_digits : 100 ≤ code ∧ code < 1000
  reason_line : OneLine reason
  reason_start : reason.head? ≠ some 32

/-- The line that is printed for a header. -/
def Header.text (header : Header) : Bytes :=
  header.name ++ ascii ": " ++ header.value ++ ascii "\r\n"

/-- The bytes of a response. -/
def WrittenResponse.text (response : WrittenResponse) : Bytes :=
  response.proto ++ [32] ++ decimal response.code ++ [32] ++ response.reason ++ ascii "\r\n" ++
    response.headers.flatMap Header.text ++ ascii "\r\n"

def WrittenRequest.line (request : WrittenRequest) : RequestLine where
  method := request.method
  gap := request.gap - 1
  uri := request.uri
  gap' := request.gap' - 1
  proto := ⟨request.proto, 13, 0, false, request.proto_line, request.proto_start,
    Or.inr (Or.inl rfl)⟩
  method_word := request.method_word
  method_slash := request.method_slash
  uri_word := request.uri_word
  uri_ne := request.uri_ne

theorem WrittenRequest.text_line (request : WrittenRequest) :
    (StartLine.request request.line).text =
      request.method ++ List.replicate request.gap 32 ++ request.uri ++
        List.replicate request.gap' 32 ++ request.proto ++ ascii "\r\n" := by
  have hgap : List.replicate request.gap (32 : UInt8) =
      32 :: List.replicate (request.gap - 1) 32 := by
    rw [← replicate_succ, Nat.sub_add_cancel request.gap_pos]
  have hgap' : List.replicate request.gap' (32 : UInt8) =
      32 :: List.replicate (request.gap' - 1) 32 := by
    rw [← replicate_succ, Nat.sub_add_cancel request.gap_pos']
  simp only [hgap, hgap', append_assoc, cons_append]
  rfl

/-- A written request is taken apart into its words and headers. -/
theorem parsePmsg_request (request : WrittenRequest) (body : Bytes)
    (hcount : request.headers.length ≤ maxFields)
    (hnames : ∀ header ∈ request.headers, header.spaces ≠ 0 → header.name ≠ []) :
    ∃ m, parsePmsg (request.text ++ body) = .ok (m, request.text.length) ∧
      m.IsRequest request.method request.uri request.proto
        (request.headers.map fun header ↦ header.pair) := by
  obtain ⟨m, rest, hparse, hmsg, hprotoId, hsl, hheaders⟩ :=
    parsePmsg_written (.request request.line) body hcount hnames
  obtain ⟨hmethod, huri, hproto⟩ := request.line.text_cut rest
  rw [request.text_line] at hparse
  refine ⟨m, hparse, ?_, ⟨0, _, hsl, ?_, ?_⟩, hheaders⟩
  · rw [hprotoId, Option.map_some, Pmsg.text, hmsg]
    exact congrArg some hproto
  · rw [Pmsg.text, hmsg, drop_zero]
    exact hmethod
  · rw [Pmsg.text, hmsg]
    exact huri

theorem decimal_threeDigits {code : ℕ} (hcode : 100 ≤ code ∧ code < 1000) :
    ∃ a b c, decimal code = [a, b, c] ∧ isDigit a ∧ isDigit b ∧ isDigit c := by
  have hcode10 : 10 ≤ code := Nat.le_trans (by decide) hcode.1
  have hcode100 : 10 ≤ code / 10 := by omega
  have hcode1000 : code / 10 / 10 < 10 := by omega
  have hdecimal : decimal code = [decimalDigit (code / 10 / 10), decimalDigit (code / 10 % 10),
      decimalDigit (code % 10)] := by
    rw [decimal_of_le hcode10, decimal_of_le hcode100, decimal_of_lt hcode1000]
    rfl
  have hdigit (value : ℕ) : isDigit (decimalDigit (value % 10)) = true :=
    isDigit_decimalDigit (Nat.mod_lt _ (by decide))
  exact ⟨_, _, _, hdecimal, isDigit_decimalDigit hcode1000, hdigit _, hdigit _⟩

def Header.written (header : Header) : WrittenHeader :=
  { header with spaces := 0, blanks := [32], blanks_blank := by simp }

theorem Header.text_written (header : Header) : header.written.text = header.text := by
  simp only [Header.written, WrittenHeader.text, Header.text, replicate_zero,
    append_nil, append_assoc]
  rfl

theorem flatMap_written (headers : List Header) :
    (headers.map Header.written).flatMap WrittenHeader.text = headers.flatMap Header.text := by
  rw [flatMap_map]
  exact congrArg (headers.flatMap ·) (funext Header.text_written)

/-- A printed response is taken apart into its code, its strings and its headers, if its protocol
word stays on the line. -/
theorem parsePmsg_response (response : WrittenResponse) (body : Bytes)
    (hcount : response.headers.length ≤ maxFields) (hprotoLine : OneLine response.proto) :
    ∃ m, parsePmsg (response.text ++ body) = .ok (m, response.text.length) ∧
      m.IsResponse response.proto response.code response.reason
        (response.headers.map fun header ↦ header.pair) := by
  obtain ⟨a, b, c, hdigits, hdigit⟩ := decimal_threeDigits response.code_digits
  let line : ResponseLine :=
    { proto := response.proto
      gap := 0
      digits := (a, b, c)
      gap' := 0
      reason := ⟨response.reason, 13, 0, false, response.reason_line, response.reason_start,
        Or.inr (Or.inl rfl)⟩
      proto_word := fun b hb ↦ ⟨fun hspace ↦ response.proto_space (hspace ▸ hb), hprotoLine b hb⟩
      proto_slash := response.proto_slash
      digits_digit := hdigit }
  have hline : (StartLine.response line).text = response.proto ++ [32] ++ decimal response.code ++
      [32] ++ response.reason ++ ascii "\r\n" := by
    rw [hdigits]
    simp only [append_assoc]
    rfl
  have hcode : digitsValue 0 [a, b, c] = response.code := by
    rw [← hdigits, digitsValue_decimal]
  have hspaces : ∀ header ∈ response.headers.map Header.written, header.spaces ≠ 0 →
      header.name ≠ [] := by
    intro header hheader hne
    obtain ⟨printed, -, rfl⟩ := mem_map.mp hheader
    exact absurd rfl hne
  obtain ⟨m, rest, hparse, hmsg, hprotoId, hsl, hheaders⟩ :=
    parsePmsg_written (.response line) body (by rwa [length_map]) hspaces
  obtain ⟨hproto, hreason⟩ := line.text_cut rest
  rw [hline, flatMap_written] at hparse
  refine ⟨m, hparse, ?_, ⟨_, hsl.trans (congrArg (StatusLine.stat · _) hcode), ?_⟩, ?_⟩
  · rw [hprotoId, Option.map_some, Pmsg.text, hmsg]
    exact congrArg some hproto
  · rw [Pmsg.text, hmsg]
    exact hreason
  · rw [hheaders, map_map]
    rfl

end WisCam.Message
